import EzServer.Net.ClientRules
import Mathlib.Data.List.Forall2

/-!
# The response stream

`Respond` initiates two sends, one for the header and one for the message, and does not wait for
either. Here the two are separate steps, so that calls from several threads interleave, and a send
may transfer any prefix of its buffer. The header is an array on the stack of `Respond`, and the
message belongs to its caller, so from the return of the call on their memory may be used for
something else. The stream is well framed as long as no header is sent between the header and the
message of another call, nothing follows a truncated send, and the bytes of every send are still
there when it is carried out.
-/

namespace EzServer.Net

/-- The arguments of a `Respond` call. -/
structure Response where
  code : ResponseCode
  message : List UInt8
  flags : UInt8
  deriving DecidableEq, Repr

namespace Response

def header (r : Response) : List UInt8 :=
  responseHeader r.code (UInt64.ofNat r.message.length) r.flags

/-- The whole frame of a response. -/
def frame (r : Response) : List UInt8 := r.header ++ r.message

end Response

/-- A client on which `Respond` is called by several handlers. -/
structure Responder where
  client : AsyncTcpClient
  /-- The calls that have not yet sent their header. -/
  entered : List Response
  /-- The calls that have, in the order of their headers, and whether their message is sent. -/
  begun : List (Response × Bool)
  /-- The places in `begun` of the calls of the sends that have not completed. -/
  callers : List ℕ
  /-- Some send has transferred less than its buffer. -/
  truncated : Bool
  deriving DecidableEq, Repr

/-- A step of the calls and of the socket. -/
inductive ResponderLabel where
  | call (r : Response)
  /-- The first `async_send` of the `i`-th call that has been entered. -/
  | sendHeader (i : ℕ)
  /-- The second `async_send` of the `i`-th call that has begun. -/
  | sendMessage (i : ℕ)
  /-- The memory of the `i`-th buffer is used for something else. -/
  | overwrite (i : ℕ) (contents : List UInt8)
  /-- The oldest send completes after `sent` bytes. -/
  | transfer (sent : ℕ) (err : Option ErrorCode)
  | handleWrite (i : ℕ)
  | stop
  deriving DecidableEq, Repr

namespace Responder

/-- No `Respond` has been called on a connected client. -/
def init (stream : List UInt8) : Responder where
  client := .connected stream
  entered := []
  begun := []
  callers := []
  truncated := false

def step (s : Responder) : ResponderLabel → Option Responder
  | .call r => some { s with entered := s.entered ++ [r] }
  | .sendHeader i => do
    let r ← s.entered[i]?
    return { s with
      client := s.client.asyncSend r.header 8
      entered := s.entered.eraseIdx i
      begun := s.begun ++ [(r, false)]
      callers := s.callers ++ [s.begun.length] }
  | .sendMessage i =>
    match s.begun[i]? with
    | some (r, false) => some { s with
        client := s.client.asyncSend r.message r.message.length
        begun := s.begun.set i (r, true)
        callers := s.callers ++ [i] }
    | _ => none
  | .overwrite i contents => do
    let k ← s.callers[i]?
    let p ← s.begun[k]?
    let client ← s.client.step (.overwrite i contents)
    -- a call that has yet to send its message has not returned
    if p.2 then return { s with client := client } else none
  | .transfer sent err => do
    let op ← s.client.sends.head?
    let client ← s.client.step (.send sent err)
    return { s with
      client := client
      callers := s.callers.tail
      truncated := s.truncated || sent < op.data.length }
  | .handleWrite i => do
    let client ← s.client.step (.handleWrite i)
    return { s with client := client }
  | .stop => do
    let client ← s.client.step .stop
    return { s with client := client }

/-- All calls of `Respond` so far. -/
def calls (s : Responder) : List Response := s.entered ++ s.begun.map Prod.fst

/-- The bytes on the wire are a prefix of whole frames, one for each call in some order. -/
def WellFramed (s : Responder) : Prop :=
  ∃ order : List Response, order.Perm s.calls ∧ s.client.wire <+: order.flatMap Response.frame

/-- A header is only sent when no other call still has to send a message, nothing is transferred
after a truncated send, and nothing but what a send was given. -/
def orderly (s : Responder) : ResponderLabel → Bool
  | .sendHeader _ => s.begun.all fun p => p.2 || p.1.message.isEmpty
  | .transfer sent _ => sent == 0 || !s.truncated && s.client.nextIntact sent
  | _ => true

/-! ### Invariant -/

/-- The bytes that the sends which are not completed were given. -/
def pending (s : Responder) : List UInt8 := s.client.sends.flatMap SendOp.data

/-- The messages that are still to be sent. -/
def missing (begun : List (Response × Bool)) : List UInt8 :=
  begun.flatMap fun p => if p.2 then [] else p.1.message

/-- The frames of the calls that have begun. -/
def frames (s : Responder) : List UInt8 := (s.begun.map Prod.fst).flatMap Response.frame

/-- The message of the call is on its way, or there is none. -/
def Settled (p : Response × Bool) : Prop := p.2 = true ∨ p.1.message = []

structure Orderly (s : Responder) : Prop where
  /-- Only the last call that has begun still has to send a message. -/
  last : ∀ p ∈ s.begun.dropLast, Settled p
  /-- Until a send is truncated, the wire goes on to whole frames. -/
  whole : s.truncated = false → s.client.wire ++ s.pending ++ missing s.begun = s.frames
  isPrefix : s.client.wire <+: s.frames

lemma missing_append (b b' : List (Response × Bool)) :
    missing (b ++ b') = missing b ++ missing b' := by simp [missing]

lemma missing_eq_nil {begun : List (Response × Bool)} (h : ∀ p ∈ begun, Settled p) :
    missing begun = [] := by
  apply List.flatMap_eq_nil_iff.mpr
  intro p hp
  rcases h p hp with hsent | hempty
  · simp [hsent]
  · simp [hempty]

/-- Sending the message of a call takes it from what is missing to what is pending. -/
lemma missing_set {begun : List (Response × Bool)} {i : ℕ} {r : Response}
    (hlast : ∀ p ∈ begun.dropLast, Settled p) (hi : begun[i]? = some (r, false)) :
    missing begun = r.message ++ missing (begun.set i (r, true)) := by
  obtain ⟨l, r', hbegun, hset⟩ := Core.exists_split_set hi
  have hfront : missing l = [] := by
    refine missing_eq_nil fun p hp => hlast p ?_
    rw [hbegun, List.dropLast_append_of_ne_nil (by simp)]
    exact List.mem_append_left _ hp
  rw [hset, hbegun, missing_append, missing_append, hfront]
  simp [missing]

/-! ### Steps -/

lemma Orderly.init (stream : List UInt8) : Orderly (init stream) where
  last := by simp [Responder.init]
  whole := fun _ => rfl
  isPrefix := ⟨[], rfl⟩

lemma Orderly.wellFramed {s : Responder} (hs : Orderly s) : s.WellFramed := by
  refine ⟨s.begun.map Prod.fst ++ s.entered, List.perm_append_comm, ?_⟩
  rw [List.flatMap_append]
  exact hs.isPrefix.trans (List.prefix_append _ _)

/-- Only the wire of the client and what its sends were given matter. -/
lemma Orderly.congr {s : Responder} {client : AsyncTcpClient} (hs : Orderly s)
    (hwire : client.wire = s.client.wire)
    (hsends : client.sends.map SendOp.data = s.client.sends.map SendOp.data) :
    Orderly { s with client := client } where
  last := hs.last
  whole := by
    simpa only [pending, frames, hwire, List.flatMap_def, hsends] using hs.whole
  isPrefix := by simpa only [frames, hwire] using hs.isPrefix

lemma Orderly.sendHeader {s : Responder} (hs : Orderly s) {i : ℕ} (r : Response)
    (hidle : s.orderly (.sendHeader i) = true) :
    Orderly { s with
      client := s.client.asyncSend r.header 8
      entered := s.entered.eraseIdx i
      begun := s.begun ++ [(r, false)]
      callers := s.callers ++ [s.begun.length] } := by
  have hsettled : ∀ p ∈ s.begun, Settled p := by
    intro p hp
    have := List.all_eq_true.mp hidle p hp
    simpa [Settled] using this
  have hmissing : missing s.begun = [] := missing_eq_nil hsettled
  refine ⟨?_, fun hwhole => ?_, ?_⟩
  · rw [List.dropLast_concat]
    exact hsettled
  · have hold := hs.whole hwhole
    rw [hmissing, List.append_nil] at hold
    simp only [frames, pending, AsyncTcpClient.asyncSend, missing_append, hmissing,
      List.map_append, List.flatMap_append] at hold ⊢
    simp [← hold, missing, Response.frame]
  · refine hs.isPrefix.trans ⟨r.frame, ?_⟩
    simp [frames]

lemma Orderly.sendMessage {s : Responder} (hs : Orderly s) {i : ℕ} {r : Response}
    (hi : s.begun[i]? = some (r, false)) :
    Orderly { s with
      client := s.client.asyncSend r.message r.message.length
      begun := s.begun.set i (r, true)
      callers := s.callers ++ [i] } := by
  have hcalls : (s.begun.set i (r, true)).map Prod.fst = s.begun.map Prod.fst := by
    obtain ⟨hlt, hget⟩ := List.getElem?_eq_some_iff.mp hi
    have hlt' : i < (s.begun.map Prod.fst).length := by simpa using hlt
    have hfst : (s.begun.map Prod.fst)[i] = r := by simp [hget]
    rw [List.map_set, ← hfst, List.set_getElem_self]
  refine ⟨fun p hp => ?_, fun hwhole => ?_, ?_⟩
  · rw [List.dropLast_eq_take, List.length_set, List.take_set] at hp
    rcases List.mem_or_eq_of_mem_set hp with hold | rfl
    · exact hs.last p (List.dropLast_eq_take ▸ hold)
    · exact Or.inl rfl
  · have hold := hs.whole hwhole
    rw [missing_set hs.last hi] at hold
    simp only [frames, pending, AsyncTcpClient.asyncSend, hcalls, List.flatMap_append] at hold ⊢
    rw [← hold]
    simp [List.append_assoc]
  · change s.client.wire <+: _
    simpa only [frames, hcalls] using hs.isPrefix

/-- A send that transfers all that it was given keeps what goes on after the wire. -/
lemma Orderly.transfer {s : Responder} (hs : Orderly s) {sent : ℕ} {err : Option ErrorCode}
    {op : SendOp} {sends : List SendOp} {writes : List WriteCompletion}
    (hsends : s.client.sends = op :: sends)
    (hopen : s.orderly (.transfer sent err) = true) :
    Orderly { s with
      client := { s.client with
        sends := sends
        wire := s.client.wire ++ op.contents.take sent
        writes := writes }
      callers := s.callers.tail
      truncated := s.truncated || sent < op.data.length } := by
  rw [orderly, AsyncTcpClient.nextIntact, hsends, List.head?_cons, Option.all_some] at hopen
  by_cases hzero : sent = 0
  · subst hzero
    refine ⟨hs.last, fun hwhole => ?_, by simpa [frames] using hs.isPrefix⟩
    simp only [Bool.or_eq_false_iff, decide_eq_false_iff_not, not_lt, Nat.le_zero,
      List.length_eq_zero_iff] at hwhole
    have hold := hs.whole hwhole.1
    simpa [pending, frames, hsends, hwhole.2] using hold
  · have hintact : s.truncated = false ∧ op.contents.take sent = op.data.take sent := by
      simpa [hzero, SendOp.isIntact] using hopen
    have hold := hs.whole hintact.1
    simp only [pending, hsends, List.flatMap_cons] at hold
    rw [hintact.2]
    refine ⟨hs.last, fun hwhole => ?_, ?_⟩
    · simp only [Bool.or_eq_false_iff, decide_eq_false_iff_not, not_lt] at hwhole
      simp only [pending, List.take_of_length_le hwhole.2]
      simpa [frames, List.append_assoc] using hold
    · change s.client.wire ++ op.data.take sent <+: s.frames
      rw [← hold, List.append_assoc, List.append_assoc]
      apply (List.prefix_append_right_inj _).mpr
      exact (List.take_prefix _ _).trans (List.prefix_append _ _)

/-- Only the buffers of calls that have returned are overwritten. -/
lemma overwrite_eq_some {s s' : Responder} {i : ℕ} {contents : List UInt8}
    (h : s.step (.overwrite i contents) = some s') :
    ∃ k p client, s.callers[i]? = some k ∧ s.begun[k]? = some p ∧
      s.client.step (.overwrite i contents) = some client ∧ p.2 = true ∧
      s' = { s with client := client } := by
  simp only [Responder.step, Option.bind_eq_bind, Option.bind_eq_some_iff] at h
  obtain ⟨k, hk, p, hp, client, hclient, h⟩ := h
  split_ifs at h with hsent
  exact ⟨k, p, client, hk, hp, hclient, hsent, (Option.some.inj h).symm⟩

lemma Orderly.step {s s' : Responder} {a : ResponderLabel} (hs : Orderly s)
    (ha : s.orderly a = true) (h : s.step a = some s') : Orderly s' := by
  cases a with
  | call r =>
    obtain rfl := Option.some.inj h
    exact ⟨hs.last, hs.whole, hs.isPrefix⟩
  | sendHeader i =>
    simp only [Responder.step, Option.bind_eq_bind, Option.bind_eq_some_iff] at h
    obtain ⟨r, -, h⟩ := h
    obtain rfl := Option.some.inj h
    exact hs.sendHeader r ha
  | sendMessage i =>
    simp only [Responder.step] at h
    split at h
    · next r hi =>
      obtain rfl := Option.some.inj h
      exact hs.sendMessage hi
    · cases h
  | overwrite i contents =>
    obtain ⟨k, p, client, -, -, hclient, -, rfl⟩ := overwrite_eq_some h
    obtain ⟨op, hop, rfl⟩ := AsyncTcpClient.overwrite_eq_some hclient
    exact hs.congr rfl (AsyncTcpClient.data_set hop contents)
  | transfer sent err =>
    simp only [Responder.step, Option.bind_eq_bind, Option.bind_eq_some_iff] at h
    obtain ⟨op, hop, client, hclient, h⟩ := h
    obtain rfl := Option.some.inj h
    obtain ⟨sends, hsends⟩ := List.head?_eq_some_iff.mp hop
    simp only [AsyncTcpClient.step, hsends] at hclient
    split_ifs at hclient
    obtain rfl := Option.some.inj hclient
    exact hs.transfer hsends ha
  | handleWrite i =>
    simp only [Responder.step, Option.bind_eq_bind, Option.bind_eq_some_iff] at h
    obtain ⟨client, hclient, h⟩ := h
    obtain rfl := Option.some.inj h
    simp only [AsyncTcpClient.step, Option.bind_eq_bind, Option.bind_eq_some_iff] at hclient
    obtain ⟨w, -, hclient⟩ := hclient
    split_ifs at hclient
    obtain rfl := Option.some.inj hclient
    rw [AsyncTcpClient.handleWrite]
    split_ifs
    · apply hs.congr (by simp [AsyncTcpClient.stop_eq])
      simp [AsyncTcpClient.stop_eq]
    · exact hs.congr rfl rfl
  | stop =>
    simp only [Responder.step, Option.bind_eq_bind, Option.bind_eq_some_iff] at h
    obtain ⟨client, hclient, h⟩ := h
    obtain rfl := Option.some.inj h
    obtain rfl := Option.some.inj hclient
    apply hs.congr (by simp [AsyncTcpClient.stop_eq])
    simp [AsyncTcpClient.stop_eq]

/-! ### Buffers -/

/-- The buffer of a send of the `k`-th call holds what the send was given, or the call may have
returned. -/
def Kept (begun : List (Response × Bool)) (op : SendOp) (k : ℕ) : Prop :=
  ∃ p, begun[k]? = some p ∧ (p.2 = false → op.contents = op.data)

/-- That of every send. -/
def AllKept (s : Responder) : Prop := List.Forall₂ (Kept s.begun) s.client.sends s.callers

lemma Kept.begin {begun : List (Response × Bool)} {op : SendOp} {k : ℕ} (h : Kept begun op k)
    (p : Response × Bool) : Kept (begun ++ [p]) op k := by
  obtain ⟨p', hp', hkept⟩ := h
  refine ⟨p', ?_, hkept⟩
  rwa [List.getElem?_append_left (List.getElem?_eq_some_iff.mp hp').1]

lemma Kept.send {begun : List (Response × Bool)} {op : SendOp} {i k : ℕ} {r : Response}
    (h : Kept begun op k) : Kept (begun.set i (r, true)) op k := by
  obtain ⟨p, hp, hkept⟩ := h
  by_cases hik : i = k
  · subst hik
    refine ⟨(r, true), ?_, fun hsent => by cases hsent⟩
    exact List.getElem?_set_self (List.getElem?_eq_some_iff.mp hp).1
  · exact ⟨p, by rwa [List.getElem?_set_ne hik], hkept⟩

/-- A buffer may be changed once its call has sent its message. -/
lemma forall₂_kept_set {begun : List (Response × Bool)} {sends : List SendOp} {callers : List ℕ}
    (h : List.Forall₂ (Kept begun) sends callers) {i k : ℕ} {p : Response × Bool}
    (hk : callers[i]? = some k) (hp : begun[k]? = some p) (hsent : p.2 = true) (op : SendOp) :
    List.Forall₂ (Kept begun) (sends.set i op) callers := by
  induction h generalizing i with
  | nil => cases hk
  | @cons op' k' sends callers hkept hrest ih =>
    cases i with
    | zero =>
      obtain rfl : k' = k := Option.some.inj hk
      refine .cons ⟨p, hp, fun hnot => ?_⟩ hrest
      rw [hsent] at hnot
      cases hnot
    | succ i => exact .cons hkept (ih hk)

lemma AllKept.step {s s' : Responder} {a : ResponderLabel} (hs : AllKept s)
    (h : s.step a = some s') : AllKept s' := by
  cases a with
  | call r =>
    obtain rfl := Option.some.inj h
    exact hs
  | sendHeader i =>
    simp only [Responder.step, Option.bind_eq_bind, Option.bind_eq_some_iff] at h
    obtain ⟨r, -, h⟩ := h
    obtain rfl := Option.some.inj h
    refine List.rel_append (hs.imp fun op k hkept => hkept.begin (r, false)) (.cons ?_ .nil)
    exact ⟨(r, false), by simp, fun _ => rfl⟩
  | sendMessage i =>
    simp only [Responder.step] at h
    split at h
    · next r hi =>
      obtain rfl := Option.some.inj h
      refine List.rel_append (hs.imp fun op k hkept => hkept.send) (.cons ?_ .nil)
      refine ⟨(r, true), ?_, fun _ => rfl⟩
      exact List.getElem?_set_self (List.getElem?_eq_some_iff.mp hi).1
    · cases h
  | overwrite i contents =>
    obtain ⟨k, p, client, hk, hp, hclient, hsent, rfl⟩ := overwrite_eq_some h
    obtain ⟨op, -, rfl⟩ := AsyncTcpClient.overwrite_eq_some hclient
    exact forall₂_kept_set hs hk hp hsent _
  | transfer sent err =>
    simp only [Responder.step, Option.bind_eq_bind, Option.bind_eq_some_iff] at h
    obtain ⟨op, hop, client, hclient, h⟩ := h
    obtain rfl := Option.some.inj h
    obtain ⟨sends, hsends⟩ := List.head?_eq_some_iff.mp hop
    simp only [AsyncTcpClient.step, hsends] at hclient
    split_ifs at hclient
    obtain rfl := Option.some.inj hclient
    rw [AllKept, hsends] at hs
    cases hcallers : s.callers with
    | nil =>
      rw [hcallers] at hs
      cases hs
    | cons k callers =>
      rw [hcallers] at hs
      exact (List.forall₂_cons.mp hs).2
  | handleWrite i =>
    simp only [Responder.step, Option.bind_eq_bind, Option.bind_eq_some_iff] at h
    obtain ⟨client, hclient, h⟩ := h
    obtain rfl := Option.some.inj h
    simp only [AsyncTcpClient.step, Option.bind_eq_bind, Option.bind_eq_some_iff] at hclient
    obtain ⟨w, -, hclient⟩ := hclient
    split_ifs at hclient
    obtain rfl := Option.some.inj hclient
    rw [AsyncTcpClient.handleWrite]
    split_ifs
    · simpa [AllKept, AsyncTcpClient.stop_eq] using hs
    · exact hs
  | stop =>
    simp only [Responder.step, Option.bind_eq_bind, Option.bind_eq_some_iff] at h
    obtain ⟨client, hclient, h⟩ := h
    obtain rfl := Option.some.inj h
    obtain rfl := Option.some.inj hclient
    simpa [AllKept, AsyncTcpClient.stop_eq] using hs

/-- As long as a call has not sent its message, what it has sent before is as it was. -/
theorem isIntact_of_running {stream : List UInt8} {ls : List ResponderLabel} {s : Responder}
    (hrun : Core.run step (init stream) ls = some s) {i k : ℕ} {op : SendOp} {r : Response}
    (hop : s.client.sends[i]? = some op) (hk : s.callers[i]? = some k)
    (hr : s.begun[k]? = some (r, false)) (sent : ℕ) : op.isIntact sent = true := by
  have hkept : AllKept s :=
    Core.run_invariant (I := AllKept) (fun _ _ _ hs h => hs.step h)
      (show AllKept (init stream) from .nil) hrun
  obtain ⟨hi, rfl⟩ := List.getElem?_eq_some_iff.mp hop
  obtain ⟨hi', rfl⟩ := List.getElem?_eq_some_iff.mp hk
  obtain ⟨p, hp, hsame⟩ := hkept.get hi hi'
  obtain rfl := Option.some.inj (hr.symm.trans hp)
  have hcontents := hsame rfl
  simp only [List.get_eq_getElem] at hcontents
  simp [SendOp.isIntact, hcontents]

/-! ### Runs -/

/-- In every state of a run whose steps are orderly, the wire holds a prefix of whole frames. -/
theorem wellFramed_of_orderly {stream : List UInt8} {ls : List ResponderLabel}
    (hls : Core.EveryStep step (fun s a => s.orderly a = true) (init stream) ls) :
    Core.EveryState step WellFramed (init stream) ls :=
  (Core.everyState_of_everyStep (fun _ _ _ hs ha h => Orderly.step hs ha h)
    (Orderly.init stream) hls).imp fun _ hs => hs.wellFramed

/-- Two calls, the second of which sends its header after the first one's message. -/
theorem wellFramed_of_orderly_two :
    Core.EveryState step WellFramed (init [])
      [.call ⟨.kSuccess, [65], 0⟩, .call ⟨.kSuccess, [66], 0⟩, .sendHeader 1, .sendMessage 0,
        .sendHeader 0, .transfer 8 none, .sendMessage 1, .transfer 1 none, .handleWrite 0,
        .transfer 3 none, .transfer 0 none] :=
  wellFramed_of_orderly (by decide)

-- the header is sent after its call has returned, and its array is gone
example : (Core.run step (init []) [.call ⟨.kSuccess, [65], 0⟩, .sendHeader 0, .sendMessage 0,
    .overwrite 0 [9, 9, 9, 9, 9, 9, 9, 9], .transfer 8 none]).map (·.client.wire) =
      some [9, 9, 9, 9, 9, 9, 9, 9] := by decide

/-- The message follows a header of which only four bytes were sent. -/
theorem not_wellFramed_of_short_header :
    ¬ ∀ (stream : List UInt8) (ls : List ResponderLabel) (s : Responder),
      Core.run step (init stream) ls = some s → s.WellFramed := by
  intro h
  obtain ⟨order, hperm, hwire⟩ := h [] [.call ⟨.kSuccess, [65], 0⟩, .sendHeader 0, .sendMessage 0,
    .transfer 4 none, .transfer 1 none] _ rfl
  obtain rfl : order = [⟨.kSuccess, [65], 0⟩] := List.perm_singleton.mp hperm
  exact absurd hwire (by decide)

end Responder

end EzServer.Net
