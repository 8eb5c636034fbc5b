import EzServer.Application.RequestGrammar
import EzServer.Net.LengthField
import EzServer.Net.ReadFraming
import Mathlib.Data.List.TakeWhile

/-!
# The lengths of error responses

The dispatcher quotes the message, or its key, in what it answers. A quotation is longer than what
it quotes, so the answer to a message near the largest possible one does not fit the length field.
-/

namespace EzServer.Application

open EzServer.Core EzServer.Core.Regex Introp Net

variable {χ : Type}

/-- The length in the header that `Respond` sends is the number of bytes it sends after it. -/
def CarriesLength (code : ResponseCode) (message : List UInt8) (flags : UInt8) : Prop :=
  ∀ c : AsyncTcpClient, ∃ header body : SendOp,
    (c.respond code message flags).sends = c.sends ++ [header, body] ∧
      (msgLength header.data).toNat = body.data.length

/-- Every response of the dispatcher itself carries its length. -/
def CarriesLengths (out : Dispatched χ) : Prop :=
  ∀ code message flags, .respond code message flags ∈ out.actions →
    CarriesLength code message flags

lemma carriesLength_iff {code : ResponseCode} {message : List UInt8} {flags : UInt8} :
    CarriesLength code message flags ↔ message.length < 2 ^ 32 := by
  have hsends : ∀ c : AsyncTcpClient, (c.respond code message flags).sends = c.sends ++
      [⟨responseHeader code (UInt64.ofNat message.length) flags, 8,
          responseHeader code (UInt64.ofNat message.length) flags⟩,
        ⟨message, message.length, message⟩] := by
    intro c
    show c.sends ++ [_] ++ [_] = _
    rw [List.append_assoc]
    rfl
  have hlength : (msgLength (responseHeader code (UInt64.ofNat message.length) flags)).toNat =
      message.length % 2 ^ 32 := by
    rw [toNat_msgLength_responseHeader, UInt64.toNat_ofNat']
    omega
  constructor
  · intro h
    obtain ⟨header, body, hadded, hcarried⟩ := h (.init true [])
    rw [hsends, List.append_cancel_left_eq] at hadded
    obtain ⟨rfl, hrest⟩ := List.cons.inj hadded
    obtain ⟨rfl, -⟩ := List.cons.inj hrest
    have hmod : message.length % 2 ^ 32 = message.length := hlength.symm.trans hcarried
    omega
  · intro h c
    refine ⟨_, _, hsends c, ?_⟩
    exact hlength.trans (Nat.mod_eq_of_lt h)

/-- With one response in the end, that is the one that counts. -/
lemma carriesLengths_of_actions {out : Dispatched χ} (keys : List (Action χ)) {code : ResponseCode}
    {message : List UInt8} {flags : UInt8}
    (h : out.actions = keys ++ [.respond code message flags])
    (hkeys : ∀ a ∈ keys, ∃ key, a = .find key) :
    CarriesLengths out ↔ message.length < 2 ^ 32 := by
  rw [← carriesLength_iff, CarriesLengths, h]
  constructor
  · intro hall
    exact hall code message flags (List.mem_append_right _ List.mem_cons_self)
  · intro hcarries code' message' flags' hmem
    rcases List.mem_append.mp hmem with hmem | hmem
    · obtain ⟨key, hkey⟩ := hkeys _ hmem
      cases hkey
    · cases List.mem_singleton.mp hmem
      exact hcarries

/-- The responses to the body of a request carry their lengths if and only if the body is short
enough to be quoted in "Invalid Command", or its key in "No such command!", where this is the
answer. -/
theorem carriesLengths_iff (behaviour : χ → List UInt8 → CommandRun) (commands : Commands χ)
    (f : RequestFrame) :
    CarriesLengths (onMessageReceived behaviour commands f.body) ↔
      (¬ IsRequest f.body → f.body.length < 2 ^ 32 - 19) ∧
        (IsRequest f.body → commands.lookup (keyPart f.body) = none →
          (keyPart f.body).length < 2 ^ 32 - 18) := by
  by_cases h : IsRequest f.body
  · have hactions := actions_of_isRequest h behaviour commands
    cases hlookup : commands.lookup (keyPart f.body) with
    | none =>
      rw [hlookup] at hactions
      have hlength : (keyPart f.body ++ text ": No such command!").length =
          (keyPart f.body).length + 18 := List.length_append
      rw [carriesLengths_of_actions [.find (keyPart f.body)] hactions (by simp), hlength]
      constructor
      · intro hlt
        exact ⟨fun hnot => absurd h hnot, fun _ _ => by omega⟩
      · rintro ⟨-, hlt⟩
        have := hlt h rfl
        omega
    | some command =>
      rw [hlookup] at hactions
      refine iff_of_true ?_ ⟨fun hnot => absurd h hnot, fun _ hnone => by cases hnone⟩
      intro code message flags hmem
      simp [hactions] at hmem
  · have hactions := actions_of_not_isRequest h behaviour commands
    have hlength : (text "Invalid Command `" ++ f.body ++ text "`!").length =
        17 + f.body.length + 2 := by
      rw [List.length_append, List.length_append]
      rfl
    rw [carriesLengths_of_actions [] hactions (by simp), hlength]
    constructor
    · intro hlt
      exact ⟨fun _ => by omega, fun hrequest => absurd hrequest h⟩
    · rintro ⟨hlt, -⟩
      have := hlt h
      omega

/-- A request of the smallest size that cannot be quoted, without any whitespace. -/
def longRequest : RequestFrame where
  header := [0, 0, 0, 0, 0xED, 0xFF, 0xFF, 0xFF]
  body := List.replicate (2 ^ 32 - 19) (byte 'a')
  header_length := rfl
  body_length := List.length_replicate

lemma length_longRequest : longRequest.body.length = 2 ^ 32 - 19 := List.length_replicate

lemma not_isRequest_longRequest : ¬ IsRequest longRequest.body := by
  rintro ⟨-, hspace, -⟩
  apply hspace
  have hdrop : longRequest.body.dropWhile (!isSpace ·) = [] := by
    apply List.dropWhile_eq_nil_iff.mpr
    intro c hc
    rw [List.eq_of_mem_replicate hc]
    decide
  rw [spacePart, hdrop]
  rfl

/-- The answer to it announces no body at all. -/
theorem not_carriesLengths_of_longRequest :
    ¬ ∀ (behaviour : Unit → List UInt8 → CommandRun) (commands : Commands Unit)
      (f : RequestFrame), f.body ≠ [] →
        CarriesLengths (onMessageReceived behaviour commands f.body) := by
  intro h
  have hne : longRequest.body ≠ [] := by
    apply List.ne_nil_of_length_pos
    rw [length_longRequest]
    norm_num
  have hcarries := h (fun _ _ => ⟨[], .returned .kSuccess⟩) [] longRequest hne
  have hactions := actions_of_not_isRequest not_isRequest_longRequest
    (fun (_ : Unit) _ => ⟨[], .returned .kSuccess⟩) []
  have hquote : (text "Invalid Command `").length = 17 := rfl
  have hend : (text "`!").length = 2 := rfl
  rw [carriesLengths_of_actions [] hactions (by simp), List.length_append,
    List.length_append, length_longRequest, hquote, hend] at hcarries
  norm_num at hcarries

end EzServer.Application
