import EzServer.Application.Session

/-!
# The close event of a client

A read chain ends in two ways: at `ConnectionClosed`, or in `StartRead` when it finds the client
stopped after a message or an answered empty frame. The second end is silent.
-/

namespace EzServer.Application.Session

open Net Net.AsyncTcpClient

/-- `StartRead` after a handler finds its client running on an open socket. -/
def resumes (s : Session) : SessionLabel → Bool
  | .client (.read _ .resume) => s.client.isRunning && s.client.isOpen
  | _ => true

/-- The commands return, or throw what `OnMessageReceived` catches. -/
def commandsReturn : SessionLabel → Bool
  | .commandThrows => false
  | _ => true

/-! ### Invariant -/

/-- How far the read chain of a session has come. -/
inductive Phase (s : Session) : Prop where
  | reading (op : ReadOp) (hreads : s.client.reads = [op]) (hop : op.isClosing = false)
  | closing (err : ErrorCode) (hreads : s.client.reads = [.raisingConnectionClosed err])
      (hraised : s.raised = true)
  | closed (hreads : s.client.reads = []) (hclosing : s.closing = some .returned)

structure Attended (s : Session) : Prop extends Linked s where
  opened : s.client.isOpen = true → s.client.isRunning = true
  phase : Phase s

/-- The read chain has ended, and `ConnectionClosed` is never raised. -/
structure Forgotten (s : Session) : Prop extends Linked s where
  reads : s.client.reads = []
  isOpen : s.client.isOpen = false
  raised : s.raised = false

lemma attended_accepted (id : UInt64) (stream : List UInt8) : Attended (accepted id stream) where
  chain := oneChain_connected stream
  raised_eq := rfl
  opened := fun _ => rfl
  phase := .reading .receivingHeader rfl rfl

lemma raised_congr {s t : Session} (h : t.client.events = s.client.events) :
    t.raised = s.raised := by simp [raised, h]

lemma Phase.congr {s t : Session} (hs : Phase s) (hreads : t.client.reads = s.client.reads)
    (hevents : t.client.events = s.client.events)
    (hclosing : s.closing = some .returned → t.closing = some .returned) : Phase t := by
  cases hs with
  | reading op hr hop => exact .reading op (hreads.trans hr) hop
  | closing err hr hraised => exact .closing err (hreads.trans hr) (raised_congr hevents ▸ hraised)
  | closed hr hc => exact .closed (hreads.trans hr) (hclosing hc)

/-! ### Steps -/

lemma advance_closing_returned {s : Session} (client : AsyncTcpClient)
    (h : s.closing = some .returned) : (s.advance client).closing = some .returned := by
  simp [advance, h]

/-- A read step that does not end the chain in `StartRead` keeps the session attended. -/
lemma Attended.read {s : Session} {client : AsyncTcpClient} {i : ℕ} {l : ReadLabel}
    (hs : Attended s) (hl : s.resumes (.client (.read i l)) = true) (hreturn : l ≠ .closeReturned)
    (h : s.client.step (.read i l) = some client) : Attended (s.advance client) := by
  have hlinked := hs.advance h
  obtain ⟨op, c₁, ops, hreads, hrule, rfl⟩ := ReadRule.of_step hs.chain.length_le h
  have hresume : l = .resume → s.client.startRead ≠ [] := by
    rintro rfl
    obtain ⟨hrun, hopen⟩ : s.client.isRunning = true ∧ s.client.isOpen = true := by
      simpa [resumes] using hl
    simp [startRead, hrun, hopen]
  obtain ⟨hop, op', rfl, hclose⟩ := hrule.goes_on hresume hreturn
  refine ⟨hlinked, fun hopen => ?_, ?_⟩
  · exact hrule.flags_eq.1.trans (hs.opened (hrule.flags_eq.2.symm.trans hopen))
  · cases hop' : op'.isClosing with
    | false => exact .reading op' rfl hop'
    | true =>
      obtain ⟨err, rfl, hmem⟩ := hclose hop'
      exact .closing err rfl (List.any_eq_true.mpr ⟨.connectionClosed err, hmem, rfl⟩)

lemma Attended.outer {s : Session} {client : AsyncTcpClient} {a : Label} (hs : Attended s)
    (ha : ∀ i l, a ≠ .read i l) (h : s.client.step a = some client) :
    Attended (s.advance client) := by
  have hlinked := hs.advance h
  have hphase : client.reads = s.client.reads → Keeps s.client client →
      Phase (s.advance client) := fun hreads hkeep =>
    hs.phase.congr hreads hkeep.events (advance_closing_returned client)
  cases OuterRule.of_step ha h with
  | quiet hkeep hreads hrun hopen _ =>
    exact ⟨hlinked, fun ho => hrun.trans (hs.opened (hopen.symm.trans ho)), hphase hreads hkeep⟩
  | started _ _ hrun hopen _ _ _ => simp [hs.opened hopen] at hrun
  | restarted hkeep hreads _ _ hrun' _ _ => exact ⟨hlinked, fun _ => hrun', hphase hreads hkeep⟩
  | stopped hkeep hreads _ _ _ hopen' =>
    exact ⟨hlinked, fun ho => absurd (hopen'.symm.trans ho) (by simp), hphase hreads hkeep⟩

/-- `OnConnectionClosed` is only called by the read handler that raised `ConnectionClosed`. -/
lemma Attended.reads_of_closing {s : Session} {statement : ClosedStatement} (hs : Attended s)
    (hclosing : s.closing = some statement) (hst : statement ≠ .returned) :
    ∃ err, s.client.reads = [.raisingConnectionClosed err] := by
  cases hs.phase with
  | reading op hreads hop =>
    have hraised : s.raised = false :=
      raised_eq_false_iff.mpr (hs.chain.noClose op (by simp [hreads]) hop)
    simp [hs.raised_eq, hclosing] at hraised
  | closing err hreads _ => exact ⟨err, hreads⟩
  | closed _ hc => exact absurd (Option.some.inj (hclosing.symm.trans hc)) hst

lemma Attended.closed {s s' : Session} {throws : Bool} {statement : ClosedStatement}
    (hs : Attended s) (hclosing : s.closing = some statement)
    (h : s.onConnectionClosed throws statement = some s') : Attended s' := by
  have hlinked := linked_onConnectionClosed hs.toLinked hclosing h
  have hraised : s.raised = true := by rw [hs.raised_eq, hclosing]; rfl
  have hst : statement ≠ .returned := by
    rintro rfl
    cases h
  obtain ⟨e, hreads⟩ := hs.reads_of_closing hclosing hst
  cases statement with
  | stop =>
    obtain rfl := Option.some.inj h
    refine ⟨hlinked, fun hopen => ?_, .closing e ?_ ?_⟩
    · cases hrun : s.client.isRunning with
      | true => simp [stop_eq, hrun] at hopen
      | false =>
        have hopen' : s.client.isOpen = true := by simpa [stop_eq, hrun] using hopen
        simp [hs.opened hopen'] at hrun
    · simpa [stop_eq] using hreads
    · exact raised_of_prefix (by simp [stop_eq]) hraised
  | returned => exact absurd rfl hst
  | _ =>
    obtain rfl := Option.some.inj h
    exact ⟨hlinked, hs.opened, .closing e hreads hraised⟩

/-- Every step keeps the session attended, unless `StartRead` finds the client stopped. -/
lemma Attended.step {s s' : Session} {l : SessionLabel} (hs : Attended s)
    (hcommand : commandsReturn l = true) (hl : s.resumes l = true) (h : s.step l = some s') :
    Attended s' := by
  have hlinked := hs.toLinked.step h
  cases SessionRule.of_step h with
  | returned hclient hclosing =>
    obtain ⟨op, c₁, ops, hreads, hrule, rfl⟩ := ReadRule.of_step hs.chain.length_le hclient
    cases hrule with
    | closeReturned err => exact ⟨hlinked, hs.opened, .closed rfl hclosing⟩
  | @client l client hnot hclient =>
    cases l with
    | read i l =>
      refine hs.read hl ?_ hclient
      rintro rfl
      exact hnot i rfl
    | _ => exact hs.outer (by simp) hclient
  | closed hclosing hs' => exact hs.closed hclosing hs'
  | commandThrew _ => cases hcommand

/-- `StartRead` on a stopped client ends the chain without an event. -/
lemma Attended.forgotten {s s' : Session} {l : SessionLabel} (hs : Attended s)
    (hl : ¬ s.resumes l = true) (h : s.step l = some s') : Forgotten s' := by
  have hlinked := hs.toLinked.step h
  obtain ⟨i, rfl⟩ : ∃ i, l = .client (.read i .resume) := by
    unfold resumes at hl
    split at hl
    · exact ⟨_, rfl⟩
    · exact absurd rfl hl
  simp only [Session.step, Option.bind_eq_bind, Option.bind_eq_some_iff] at h
  obtain ⟨client, hclient, h⟩ := h
  obtain rfl := Option.some.inj h
  have hopen : s.client.isOpen = false := by
    by_contra hopen
    have hopen : s.client.isOpen = true := by simpa using hopen
    simp [resumes, hopen, hs.opened hopen] at hl
  have hstart : s.client.startRead = [] := by simp [startRead, hopen]
  obtain ⟨op, c₁, ops, hreads, hrule, rfl⟩ := ReadRule.of_step hs.chain.length_le hclient
  have hraised : op.isClosing = false → s.raised = false := fun hop =>
    raised_eq_false_iff.mpr (hs.chain.noClose op (by simp [hreads]) hop)
  cases hrule with
  | messageHandled => exact ⟨hlinked, hstart, hopen, hraised rfl⟩
  | emptyAnswered => exact ⟨hlinked, hstart, hopen, hraised rfl⟩

lemma Forgotten.step {s s' : Session} {l : SessionLabel} (hs : Forgotten s)
    (h : s.step l = some s') : Forgotten s' := by
  have hlinked := hs.toLinked.step h
  have hnoread : ∀ i l client, s.client.step (.read i l) ≠ some client := by
    intro i l client hstep
    obtain ⟨op, _, _, hreads, -⟩ := ReadRule.of_step hs.chain.length_le hstep
    simp [hs.reads] at hreads
  cases SessionRule.of_step h with
  | returned hclient _ => exact absurd hclient (hnoread _ _ _)
  | @client l client _ hclient =>
    have ha : ∀ i l', l ≠ .read i l' := by
      rintro i l' rfl
      exact hnoread i l' client hclient
    cases OuterRule.of_step ha hclient with
    | quiet hkeep hreads _ hopen _ =>
      exact ⟨hlinked, hreads.trans hs.reads, hopen.trans hs.isOpen,
        (raised_congr hkeep.events).trans hs.raised⟩
    | started _ _ _ hopen _ _ _ => simp [hs.isOpen] at hopen
    | restarted hkeep hreads _ _ _ hopen' _ =>
      exact ⟨hlinked, hreads.trans hs.reads, hopen', (raised_congr hkeep.events).trans hs.raised⟩
    | stopped hkeep hreads _ _ _ hopen' =>
      exact ⟨hlinked, hreads.trans hs.reads, hopen', (raised_congr hkeep.events).trans hs.raised⟩
  | closed hclosing _ =>
    -- `OnConnectionClosed` has not been called
    have hraised := hs.raised_eq
    simp [hs.raised, hclosing] at hraised
  | commandThrew hreads => simp [hs.reads] at hreads

/-! ### Runs -/

/-- When no read operation is pending, queued or running any more, `ConnectionClosed` has been
raised and the client erased if and only if `StartRead` has always found the client running on an
open socket. -/
theorem raised_and_erased_iff {id : UInt64} {stream : List UInt8} {ls : List SessionLabel}
    {s : Session} (hrun : Core.run step (accepted id stream) ls = some s)
    (hcommands : Core.EveryStep step (fun _ l => commandsReturn l = true) (accepted id stream) ls)
    (hidle : s.client.reads = []) :
    (s.raised = true ∧ s.erased = true) ↔
      Core.EveryStep step (fun t l => t.resumes l = true) (accepted id stream) ls := by
  rcases Core.everyStep_or_latched (fun _ _ _ hs hcommand hl h => Attended.step hs hcommand hl h)
    (fun _ _ _ hs _ hl h => Attended.forgotten hs hl h)
    (fun _ _ _ (hs : Forgotten _) _ h => hs.step h)
    (attended_accepted id stream) hcommands hrun with ⟨hall, hs⟩ | ⟨hnot, hs⟩
  · refine iff_of_true ?_ hall
    cases hs.phase with
    | reading op hreads _ => simp [hidle] at hreads
    | closing err hreads _ => simp [hidle] at hreads
    | closed _ hclosing => exact ⟨by simp [hs.raised_eq, hclosing], by simp [erased, hclosing]⟩
  · refine iff_of_false ?_ hnot
    rintro ⟨hraised, -⟩
    simp [hs.raised] at hraised

/-- A peer that disconnects after one answered request. -/
theorem raised_and_erased_iff_disconnected :
    let ls := [.client (.arrive 9), .client (.read 0 (.receiveSome 8)),
      .client (.read 0 .headerHandler), .client (.read 0 (.readSome 1)),
      .client (.read 0 .bodyHandler), .client (.respond .kSuccess [66] 0),
      .client (.read 0 .resume), .client (.read 0 (.receiveFail .eof)),
      .client (.read 0 .headerHandler), .closed false, .closed false, .closed false,
      .closed false, .client (.read 0 .closeReturned)]
    let s := accepted 1 [0, 0, 0, 0, 1, 0, 0, 0, 65]
    ∃ t, Core.run step s ls = some t ∧ t.client.reads = [] ∧
      ((t.raised = true ∧ t.erased = true) ↔
        Core.EveryStep step (fun t l => t.resumes l = true) s ls) :=
  ⟨_, rfl, rfl, raised_and_erased_iff rfl (by decide) rfl⟩

/-- A command stops its client, and `StartRead` returns without a word. -/
theorem not_raised_of_stop :
    ¬ ∀ (id : UInt64) (stream : List UInt8) (ls : List SessionLabel) (s : Session),
      Core.run step (accepted id stream) ls = some s →
      Core.EveryStep step (fun _ l => commandsReturn l = true) (accepted id stream) ls →
      s.client.reads = [] → s.raised = true ∧ s.erased = true := by
  intro h
  have hraised := h 1 [0, 0, 0, 0, 1, 0, 0, 0, 65]
    [.client (.arrive 9), .client (.read 0 (.receiveSome 8)), .client (.read 0 .headerHandler),
      .client (.read 0 (.readSome 1)), .client (.read 0 .bodyHandler), .client .stop,
      .client (.read 0 .resume)]
    _ rfl (by decide) rfl
  exact absurd hraised.1 (by decide)

end EzServer.Application.Session
