import EzServer.Net.Protocol

/-!
# The length field

The encoder of `Respond` masks and shifts a 64-bit length, the decoder of `StartRead` shifts
promoted signed bytes. They are inverse as far as 32 bits go.
-/

namespace EzServer.Net

/-! ### The bytes of a length -/

/-- Masking eight bits and moving them down takes one digit in base 256. -/
lemma and_shiftLeft_shiftRight (x n : ℕ) : (x &&& 255 <<< n) >>> n = x / 2 ^ n % 256 := by
  rw [Nat.shiftRight_and_distrib, Nat.shiftLeft_shiftRight, Nat.shiftRight_eq_div_pow]
  exact Nat.and_two_pow_sub_one_eq_mod _ 8

lemma toNat_lengthByte {mask shift : UInt64} {n : ℕ} (hmask : mask.toNat = 255 <<< n)
    (hshift : shift.toNat % 64 = n) (length : UInt64) :
    ((length &&& mask) >>> shift).toUInt8.toNat = length.toNat / 2 ^ n % 256 := by
  rw [UInt64.toNat_toUInt8, UInt64.toNat_shiftRight, UInt64.toNat_and, hmask, hshift,
    and_shiftLeft_shiftRight]
  exact Nat.mod_mod _ _

/-- The bytes 4..7 of the header are the four lower digits of the length in base 256. -/
lemma getD_responseHeader (code : ResponseCode) (length : UInt64) (flags : UInt8) :
    ((responseHeader code length flags).getD 4 0).toNat = length.toNat % 256 ∧
      ((responseHeader code length flags).getD 5 0).toNat = length.toNat / 2 ^ 8 % 256 ∧
      ((responseHeader code length flags).getD 6 0).toNat = length.toNat / 2 ^ 16 % 256 ∧
      ((responseHeader code length flags).getD 7 0).toNat = length.toNat / 2 ^ 24 % 256 := by
  refine ⟨?_, ?_, ?_, ?_⟩
  · show (length &&& 0x000000FF).toUInt8.toNat = _
    rw [UInt64.toNat_toUInt8, UInt64.toNat_and]
    exact (congrArg (· % 2 ^ 8) (Nat.and_two_pow_sub_one_eq_mod _ 8)).trans (Nat.mod_mod _ _)
  · exact toNat_lengthByte rfl rfl length
  · exact toNat_lengthByte rfl rfl length
  · exact toNat_lengthByte rfl rfl length

/-! ### Round trips -/

/-- Of a 64-bit length the decoder gets back the lower half. -/
lemma toNat_msgLength_responseHeader (code : ResponseCode) (length : UInt64) (flags : UInt8) :
    (msgLength (responseHeader code length flags)).toNat = length.toNat % 2 ^ 32 := by
  obtain ⟨h0, h1, h2, h3⟩ := getD_responseHeader code length flags
  rw [toNat_msgLength, littleEndianLength, h0, h1, h2, h3]
  omega

/-- Encoding the length that was decoded gives the four bytes it was decoded from. -/
lemma drop_responseHeader_msgLength (code : ResponseCode) (flags r s t u a b c d : UInt8) :
    (responseHeader code (msgLength [r, s, t, u, a, b, c, d]).toUInt64 flags).drop 4 =
      [a, b, c, d] := by
  have hlength : (msgLength [r, s, t, u, a, b, c, d]).toUInt64.toNat =
      a.toNat + b.toNat * 2 ^ 8 + c.toNat * 2 ^ 16 + d.toNat * 2 ^ 24 := by
    rw [UInt32.toNat_toUInt64, toNat_msgLength]
    rfl
  have ha := a.toNat_lt
  have hb := b.toNat_lt
  have hc := c.toNat_lt
  have hd := d.toNat_lt
  obtain ⟨h0, h1, h2, h3⟩ :=
    getD_responseHeader code (msgLength [r, s, t, u, a, b, c, d]).toUInt64 flags
  rw [hlength] at h0 h1 h2 h3
  have key : ∀ length : UInt64, (responseHeader code length flags).drop 4 =
      [(responseHeader code length flags).getD 4 0, (responseHeader code length flags).getD 5 0,
        (responseHeader code length flags).getD 6 0,
        (responseHeader code length flags).getD 7 0] := fun _ => rfl
  rw [key]
  simp only [List.cons.injEq, and_true, ← UInt8.toNat_inj]
  omega

/-- Decoding what was encoded gives the length modulo `2 ^ 32`, so all of it exactly if it fits;
and encoding what was decoded gives the same four bytes. -/
theorem length_round_trip (code : ResponseCode) (flags : UInt8) :
    (∀ length : UInt64,
      (msgLength (responseHeader code length flags)).toNat = length.toNat % 2 ^ 32 ∧
        ((msgLength (responseHeader code length flags)).toNat = length.toNat ↔
          length.toNat < 2 ^ 32)) ∧
      ∀ r s t u a b c d : UInt8,
        (responseHeader code (msgLength [r, s, t, u, a, b, c, d]).toUInt64 flags).drop 4 =
          [a, b, c, d] := by
  constructor
  · intro length
    have hmod := toNat_msgLength_responseHeader code length flags
    refine ⟨hmod, ?_⟩
    rw [hmod]
    omega
  · intro r s t u a b c d
    exact drop_responseHeader_msgLength code flags r s t u a b c d

end EzServer.Net
