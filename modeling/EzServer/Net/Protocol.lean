import EzServer.Core.Framing
import Mathlib.Tactic.GCongr
import Mathlib.Tactic.NormNum

/-!
# The wire protocol

Requests and responses are frames: an 8-byte header whose bytes 4..7 hold the length of the body,
least significant byte first. `AsyncTcpClient::Respond` writes such a header with 64-bit masks,
`AsyncTcpClient::StartRead` reads one with shifts of promoted 32-bit signed integers.
-/

namespace EzServer.Net

open EzServer.Core

/-- The errors a completion handler is called with. -/
inductive ErrorCode where
  | eof
  | messageSize
  | operationAborted
  | badDescriptor
  | other (value : ℕ)
  deriving DecidableEq, Repr

/-- `ResponseCode`. -/
inductive ResponseCode where
  | kSuccess
  | kFailure
  | kInvalidRequest
  | kCommandNotFound
  | kEmptyMessage
  deriving DecidableEq, Repr

/-- The byte a response code is sent as. -/
def ResponseCode.toUInt8 : ResponseCode → UInt8
  | .kSuccess         => 0x0
  | .kFailure         => 0x1
  | .kInvalidRequest  => 0x3
  | .kCommandNotFound => 0x4
  | .kEmptyMessage    => 0x5

/-! ### The header of a response -/

/-- The array `header` of `Respond`; `length` is the 64-bit `message.length()`. -/
def responseHeader (code : ResponseCode) (length : UInt64) (flags : UInt8) : List UInt8 :=
  [code.toUInt8, flags, 0x0, 0x0,
    (length &&& 0x000000FF).toUInt8,
    ((length &&& 0x0000FF00) >>> 0x08).toUInt8,
    ((length &&& 0x00FF0000) >>> 0x10).toUInt8,
    ((length &&& 0xFF000000) >>> 0x18).toUInt8]

/-! ### The length in the header of a request -/

/-- Integral promotion of a header byte to `int`. -/
def promote (b : UInt8) : Int32 := b.toUInt32.toInt32

/-- The `msg_length` that `StartRead` computes from `header_buffer_`. -/
def msgLength (header : List UInt8) : UInt32 :=
  (promote (header.getD 4 0) ||| promote (header.getD 5 0) <<< 0x08 |||
    promote (header.getD 6 0) <<< 0x10 ||| promote (header.getD 7 0) <<< 0x18).toUInt32

/-- The number that the bytes 4..7 of a header spell in little-endian order. -/
def littleEndianLength (header : List UInt8) : ℕ :=
  (header.getD 4 0).toNat + (header.getD 5 0).toNat * 2 ^ 8 +
    (header.getD 6 0).toNat * 2 ^ 16 + (header.getD 7 0).toNat * 2 ^ 24

/-- Requests are framed by 8-byte headers with little-endian lengths. -/
def requestFraming : Framing UInt8 where
  headerSize := 8
  bodyLength := littleEndianLength
  headerSize_pos := by decide

private lemma or_shiftLeft {a b k : ℕ} (h : a < 2 ^ k) : a ||| b <<< k = a + b * 2 ^ k := by
  rw [Nat.or_comm, ← Nat.shiftLeft_add_eq_or_of_lt h, Nat.shiftLeft_eq, Nat.add_comm]

@[simp] lemma toNat_promote (b : UInt8) : (promote b).toUInt32.toNat = b.toNat := by
  simp [promote]

/-- Shifting a promoted byte by up to 24 places loses no bit, the sign bit included. -/
lemma toNat_promote_shiftLeft {k : Int32} {n : ℕ} (hn : n ≤ 24)
    (hk : k.toBitVec.smod 32 = BitVec.ofNat 32 n) (b : UInt8) :
    (promote b <<< k).toUInt32.toNat = b.toNat * 2 ^ n := by
  have hb : (promote b).toBitVec.toNat = b.toNat := toNat_promote b
  have hlt : b.toNat * 2 ^ n < 2 ^ 32 := calc
    b.toNat * 2 ^ n < 2 ^ 8 * 2 ^ n := by gcongr; exact b.toNat_lt
    _ ≤ 2 ^ 8 * 2 ^ 24 := by gcongr; norm_num
    _ = 2 ^ 32 := by norm_num
  have hn' : n % 2 ^ 32 = n := Nat.mod_eq_of_lt (by omega)
  change (promote b <<< k).toBitVec.toNat = _
  rw [Int32.toBitVec_shiftLeft, hk, BitVec.shiftLeft_eq', BitVec.toNat_shiftLeft, hb,
    BitVec.toNat_ofNat, hn', Nat.shiftLeft_eq, Nat.mod_eq_of_lt hlt]

/-- `StartRead` decodes the little-endian length, for all four bytes. -/
theorem toNat_msgLength (header : List UInt8) :
    (msgLength header).toNat = littleEndianLength header := by
  simp only [msgLength, littleEndianLength]
  generalize header.getD 4 0 = a
  generalize header.getD 5 0 = b
  generalize header.getD 6 0 = c
  generalize header.getD 7 0 = d
  have ha := a.toNat_lt
  have hb := b.toNat_lt
  have hc := c.toNat_lt
  have h₁ := toNat_promote_shiftLeft (k := 0x08) (n := 8) (by omega) rfl b
  have h₂ := toNat_promote_shiftLeft (k := 0x10) (n := 16) (by omega) rfl c
  have h₃ := toNat_promote_shiftLeft (k := 0x18) (n := 24) (by omega) rfl d
  rw [← Nat.shiftLeft_eq] at h₁ h₂ h₃
  simp only [Int32.toUInt32_or, UInt32.toNat_or, toNat_promote, h₁, h₂, h₃]
  have e₁ : a.toNat ||| b.toNat <<< 8 = a.toNat + b.toNat * 2 ^ 8 := or_shiftLeft ha
  rw [e₁]
  have e₂ := or_shiftLeft (a := a.toNat + b.toNat * 2 ^ 8) (b := c.toNat) (k := 16) (by omega)
  rw [e₂]
  apply or_shiftLeft
  omega

end EzServer.Net
