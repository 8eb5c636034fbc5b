import EzServer.Net.ReadChain

/-!
# Who owns a client

`StartRead` captures `shared_from_this()` in its completion handlers, so every link of a read chain
owns the client: a pending operation, a queued completion, or a running handler and what it
calls. `clients_` holds a `weak_ptr`, and `Respond` binds the raw `this` into `HandleWrite`. A
write completion is therefore safe only while the read chain lasts.
-/

namespace EzServer.Net

/-- A handler of the client is running and has its `shared_ptr`. -/
def ReadOp.isHandler : ReadOp → Bool
  | .raisingMessageRecieved | .raisingConnectionClosed _ => true
  | _ => false

namespace AsyncTcpClient

/-- The owners of the client. -/
def owners (c : AsyncTcpClient) : ℕ := c.reads.length

/-- The `HandleWrite` completions that are pending or queued. -/
def outstandingWrites (c : AsyncTcpClient) : ℕ := c.sends.length + c.writes.length

/-- The client is called by its own event handlers only, which do not keep the pointer. -/
def calledByHandlers (c : AsyncTcpClient) : Label → Bool
  | .start | .stop | .respond _ _ _ => c.reads.any ReadOp.isHandler
  | _ => true

/-- The step ends the read chain. -/
def endsChain (c : AsyncTcpClient) : Label → Bool
  | .read _ .closeReturned => true
  | .read _ .resume => c.startRead.isEmpty
  | _ => false

/-- A write completion finds its client alive. -/
def WritesOwned (c : AsyncTcpClient) : Prop := 0 < c.outstandingWrites → 0 < c.owners

/-- The read chain outlives the sends. -/
def ChainOutlives (c : AsyncTcpClient) (a : Label) : Prop :=
  c.endsChain a = true → c.outstandingWrites = 0

/-! ### Steps -/

/-- A step of the chain completes no write, and leaves an owner unless it ends the chain. -/
lemma ReadRule.owners {c c' : AsyncTcpClient} {i : ℕ} {l : ReadLabel} {op : ReadOp}
    {ops : List ReadOp} (h : ReadRule c l op c' ops) :
    (c.endsChain (.read i l) = true → ops = [] ∧ c'.outstandingWrites = c.outstandingWrites) ∧
      (c.endsChain (.read i l) = false → 0 < ops.length) := by
  cases h with
  | messageHandled => simp [endsChain, List.length_pos_iff]
  | emptyAnswered => simp [endsChain, List.length_pos_iff]
  | closeReturned => simp [endsChain]
  | _ => simp [endsChain]

lemma OuterRule.owners_le {c c' : AsyncTcpClient} {a : Label} (h : OuterRule c a c') :
    c.owners ≤ c'.owners := by
  unfold owners
  cases h with
  | started _ hreads => simp [hreads]
  | quiet _ hreads => exact le_of_eq (congrArg _ hreads.symm)
  | restarted _ hreads => exact le_of_eq (congrArg _ hreads.symm)
  | stopped _ hreads => exact le_of_eq (congrArg _ hreads.symm)

lemma outstandingWrites_stop (c : AsyncTcpClient) (e : Option ErrorCode) :
    (c.stop e).2.outstandingWrites = c.outstandingWrites := by
  rw [stop_eq]; rfl

/-- Outside of the chain only `Respond` adds a write. -/
lemma outstandingWrites_le_of_step {c c' : AsyncTcpClient} {a : Label}
    (ha : ∀ i l, a ≠ .read i l) (hresp : ∀ code message flags, a ≠ .respond code message flags)
    (h : c.step a = some c') : c'.outstandingWrites ≤ c.outstandingWrites := by
  cases a with
  | start =>
    obtain rfl := Option.some.inj h
    rw [start]
    split_ifs <;> exact le_rfl
  | stop =>
    obtain rfl := Option.some.inj h
    exact (outstandingWrites_stop c none).le
  | respond code message flags => exact absurd rfl (hresp code message flags)
  | arrive n =>
    simp only [step] at h
    split_ifs at h
    obtain rfl := Option.some.inj h
    exact le_rfl
  | read i l => exact absurd rfl (ha i l)
  | overwrite i contents =>
    obtain ⟨op, -, rfl⟩ := overwrite_eq_some h
    rw [outstandingWrites, List.length_set]
    exact le_rfl
  | send sent err =>
    simp only [step] at h
    split at h
    · cases h
    · next op sends hsends =>
      split_ifs at h
      obtain rfl := Option.some.inj h
      simp only [outstandingWrites, hsends, List.length_cons, List.length_append, List.length_nil]
      omega
  | handleWrite i =>
    simp only [step, Option.bind_eq_bind, Option.bind_eq_some_iff] at h
    obtain ⟨w, hw, h⟩ := h
    split_ifs at h
    obtain rfl := Option.some.inj h
    have herase : ({ c with writes := c.writes.eraseIdx i } : AsyncTcpClient).outstandingWrites ≤
        c.outstandingWrites := by
      simp only [outstandingWrites, List.length_eraseIdx]
      split_ifs <;> omega
    rw [handleWrite]
    split_ifs
    · exact (outstandingWrites_stop _ none).le.trans herase
    · exact herase

/-- A step keeps the writes owned exactly if it does not end the chain before them. -/
lemma writesOwned_step_iff {c c' : AsyncTcpClient} {a : Label} (hc : OneChain c)
    (howned : c.WritesOwned) (hcall : c.calledByHandlers a = true) (h : c.step a = some c') :
    c'.WritesOwned ↔ c.ChainOutlives a := by
  by_cases ha : ∃ i l, a = .read i l
  · obtain ⟨i, l, rfl⟩ := ha
    obtain ⟨op, c₁, ops, hreads, hrule, rfl⟩ := ReadRule.of_step hc.length_le h
    obtain ⟨hends, hgoes⟩ := hrule.owners (i := i)
    rw [ChainOutlives]
    cases hlast : c.endsChain (.read i l) with
    | true =>
      obtain ⟨rfl, hout⟩ := hends hlast
      have hout' : ({ c₁ with reads := [] } : AsyncTcpClient).outstandingWrites =
        c.outstandingWrites := hout
      simp [WritesOwned, AsyncTcpClient.owners, hout']
    | false => exact iff_of_true (fun _ => hgoes hlast) (by simp)
  · have hno : ∀ i l, a ≠ .read i l := fun i l hil => ha ⟨i, l, hil⟩
    have hgo : c.ChainOutlives a := by
      cases a with
      | read i l => exact absurd rfl (hno i l)
      | _ => simp [ChainOutlives, endsChain]
    refine iff_of_true ?_ hgo
    intro hout
    have hle := (OuterRule.of_step hno h).owners_le
    by_cases hresp : ∃ code message flags, a = .respond code message flags
    · -- the caller is a handler of the client
      obtain ⟨code, message, flags, rfl⟩ := hresp
      obtain ⟨op, hop, -⟩ := List.any_eq_true.mp hcall
      exact (List.length_pos_of_mem hop).trans_le hle
    · have hout' := outstandingWrites_le_of_step hno
        (fun code message flags hr => hresp ⟨code, message, flags, hr⟩) h
      exact (howned (hout.trans_le hout')).trans_le hle

/-! ### Runs -/

/-- Along a run in which the client is called by its event handlers, and these return, every pending
or queued `HandleWrite` has an owner if and only if no step ends the read chain before the sends. -/
theorem writesOwned_iff_chainOutlives {stream : List UInt8} {ls : List Label} {c : AsyncTcpClient}
    (hrun : (connected stream).run ls = some c)
    (hcalls : Core.EveryStep step (fun d a => d.calledByHandlers a = true) (connected stream) ls) :
    Core.EveryState step WritesOwned (connected stream) ls ↔
      Core.EveryStep step ChainOutlives (connected stream) ls :=
  Core.everyState_iff_everyStep (I := OneChain) (fun _ _ _ hs _ hstep => hs.step hstep)
    (fun _ _ _ hs hp hcall hstep => writesOwned_step_iff hs hp hcall hstep)
    (oneChain_connected stream) (by simp [WritesOwned, outstandingWrites, connected, start, init])
    hcalls hrun

/-- An answered request whose response is sent before the peer disconnects. -/
theorem writesOwned_iff_chainOutlives_answered :
    let stream := [0, 0, 0, 0, 1, 0, 0, 0, 65]
    let ls := [.arrive 9, .read 0 (.receiveSome 8), .read 0 .headerHandler,
      .read 0 (.readSome 1), .read 0 .bodyHandler, .respond .kSuccess [66] 0, .read 0 .resume,
      .send 8 none, .send 1 none, .handleWrite 0, .handleWrite 0, .read 0 (.receiveFail .eof),
      .read 0 .headerHandler, .read 0 .closeReturned]
    Core.EveryState step WritesOwned (connected stream) ls ↔
      Core.EveryStep step ChainOutlives (connected stream) ls :=
  writesOwned_iff_chainOutlives rfl (by decide)

/-- The peer disconnects while the response is still being sent. -/
theorem not_writesOwned_of_disconnect :
    ¬ ∀ (stream : List UInt8) (ls : List Label) (c : AsyncTcpClient),
      (connected stream).run ls = some c →
      Core.EveryStep step (fun d a => d.calledByHandlers a = true) (connected stream) ls →
      c.WritesOwned := by
  intro h
  have howned := h [0, 0, 0, 0, 1, 0, 0, 0, 65]
    [.arrive 9, .read 0 (.receiveSome 8), .read 0 .headerHandler, .read 0 (.readSome 1),
      .read 0 .bodyHandler, .respond .kSuccess [66] 0, .read 0 .resume,
      .read 0 (.receiveFail .eof), .read 0 .headerHandler, .read 0 .closeReturned]
    _ rfl (by decide)
  exact absurd (howned (by decide)) (by decide)

end AsyncTcpClient

end EzServer.Net
