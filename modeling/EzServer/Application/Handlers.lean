import EzServer.Application.CloseEvent
import EzServer.Application.ThreadPool

/-!
# Running handlers

A completion handler runs from the moment it is taken up until it returns or ends by an exception.
Here it is counted how many run at a time, and what each step of the server does to that number.
-/

namespace EzServer.Application

open Net Net.AsyncTcpClient

/-! ### Sessions -/

namespace Session

/-- A completion handler of the client is running; it is over when `OnConnectionClosed` is. -/
def isHandling (s : Session) : Bool :=
  !s.client.strandFree && decide (s.closing ≠ some .returned)

/-- `OnConnectionClosed` runs inside a read handler. -/
structure Held (s : Session) : Prop extends Linked s where
  held : s.isClosing = true → ∃ err, s.client.reads = [.raisingConnectionClosed err]

lemma isClosing_iff {s : Session} :
    s.isClosing = true ↔ ∃ statement, s.closing = some statement ∧ statement ≠ .returned := by
  rw [isClosing]
  cases s.closing with
  | none => simp
  | some statement => cases statement <;> simp

/-- Before `ConnectionClosed` is raised `OnConnectionClosed` is not running. -/
lemma Linked.closing_eq_none {s : Session} (hs : Linked s) {op : ReadOp}
    (hreads : s.client.reads = [op]) (hop : op.isClosing = false) : s.closing = none := by
  have hnot : s.raised = false :=
    raised_eq_false_iff.mpr (hs.chain.noClose op (by simp [hreads]) hop)
  rw [hs.raised_eq] at hnot
  exact Option.isNone_iff_eq_none.mp (by simpa using hnot)

/-- The steps that raise `ConnectionClosed`. -/
lemma reads_of_raise {c c' : AsyncTcpClient} {a : Label} (hc : OneChain c)
    (h : c.step a = some c') (hnot : NoClose c.events) (hraised : ¬ NoClose c'.events) :
    ∃ err, c'.reads = [.raisingConnectionClosed err] := by
  by_cases ha : ∃ i l, a = .read i l
  · obtain ⟨i, l, rfl⟩ := ha
    obtain ⟨op, c₁, ops, hreads, hrule, rfl⟩ := ReadRule.of_step hc.length_le h
    have hchain := hc.step h
    cases hrule with
    | headerClosed e _ _ => exact ⟨e, rfl⟩
    | bodyClosed e _ _ => exact ⟨e, rfl⟩
    | headerEmpty _ _ =>
      exact absurd (hchain.noClose .respondedEmpty (List.mem_singleton.mpr rfl) rfl) hraised
    | bodyMessage _ =>
      exact absurd (hchain.noClose .raisingMessageRecieved (List.mem_singleton.mpr rfl) rfl) hraised
    | _ => exact absurd hnot hraised
  · have hkeep : Keeps c c' := by
      cases OuterRule.of_step (fun i l hil => ha ⟨i, l, hil⟩) h <;> assumption
    exact absurd (hkeep.events ▸ hnot) hraised

/-- While `ConnectionClosed` is raised the chain goes no further. -/
lemma reads_of_raising {c c' : AsyncTcpClient} {a : Label} {err : ErrorCode} (hc : OneChain c)
    (h : c.step a = some c') (ha : ∀ i, a ≠ .read i .closeReturned)
    (hreads : c.reads = [.raisingConnectionClosed err]) :
    c'.reads = [.raisingConnectionClosed err] := by
  by_cases hread : ∃ i l, a = .read i l
  · obtain ⟨i, l, rfl⟩ := hread
    obtain ⟨op, c₁, ops, hop, hrule, rfl⟩ := ReadRule.of_step hc.length_le h
    obtain rfl : op = _ := List.head_eq_of_cons_eq (hop.symm.trans hreads)
    cases hrule with
    | closeReturned => exact absurd rfl (ha i)
  · cases OuterRule.of_step (fun i l hil => hread ⟨i, l, hil⟩) h with
    | started hkeep _ hrun hopen =>
      rw [(hc.fresh hopen hrun).reads] at hreads
      cases hreads
    | quiet _ hr => exact hr.trans hreads
    | restarted _ hr => exact hr.trans hreads
    | stopped _ hr => exact hr.trans hreads

/-- Every step of a session keeps its `OnConnectionClosed` inside a read handler. -/
lemma Held.step {s s' : Session} {l : SessionLabel} (hs : Held s) (h : s.step l = some s') :
    Held s' := by
  refine ⟨hs.toLinked.step h, fun hclosing' => ?_⟩
  obtain ⟨statement', hstatement', hne'⟩ := isClosing_iff.mp hclosing'
  cases SessionRule.of_step h with
  | returned _ hclosing => exact absurd (Option.some.inj (hstatement'.symm.trans hclosing)) hne'
  | @client a client ha hclient =>
    cases hclosing : s.closing with
    | none =>
      have hnot : NoClose s.client.events := by
        rw [← raised_eq_false_iff, hs.raised_eq, hclosing]
        rfl
      refine reads_of_raise hs.chain hclient hnot fun hno => ?_
      rw [← raised_eq_false_iff] at hno
      have hsome := (hs.toLinked.advance hclient).raised_eq
      rw [hstatement'] at hsome
      cases hno.symm.trans hsome
    | some statement =>
      have hsame : (s.advance client).closing = s.closing := by
        rw [Session.advance, hclosing]
        rfl
      obtain ⟨err, hreads⟩ := hs.held (isClosing_iff.mpr ⟨statement', hsame ▸ hstatement', hne'⟩)
      exact ⟨err, reads_of_raising hs.chain hclient ha hreads⟩
  | @closed throws statement _ hclosing hs' =>
    have hne : statement ≠ .returned := by
      rintro rfl
      cases hs'
    obtain ⟨err, hreads⟩ := hs.held (isClosing_iff.mpr ⟨statement, hclosing, hne⟩)
    refine ⟨err, ?_⟩
    cases statement with
    | stop =>
      obtain rfl := Option.some.inj hs'
      have hstop : s.client.step .stop = some (s.client.stop none).2 := rfl
      exact reads_of_raising hs.chain hstop (by simp) hreads
    | returned => cases hs'
    | _ =>
      obtain rfl := Option.some.inj hs'
      exact hreads
  | commandThrew hreads =>
    have hnone := hs.toLinked.closing_eq_none hreads rfl
    cases hnone.symm.trans hstatement'

lemma strandFree_eq {c : AsyncTcpClient} {op : ReadOp} (h : c.reads = [op]) :
    c.strandFree = op.isOutstanding := by
  rw [strandFree, h]
  cases op <;> rfl

/-- Only the completion handlers of reads occupy the strand, and only they raise events. -/
lemma strandFree_of_step {c c' : AsyncTcpClient} {a : Label} (hc : OneChain c)
    (h : c.step a = some c') (ha : (SessionLabel.client a).isCompletion = false) :
    (c.strandFree = true → c'.strandFree = true) ∧ c'.events = c.events := by
  by_cases hread : ∃ i l, a = .read i l
  · obtain ⟨i, l, rfl⟩ := hread
    obtain ⟨op, c₁, ops, hreads, hrule, rfl⟩ := ReadRule.of_step hc.length_le h
    have hfree := strandFree_eq hreads
    cases hrule with
    | headerClosed | headerEmpty | headerBody | bodyClosed | bodyMessage => cases ha
    | messageHandled | emptyAnswered | closeReturned =>
      exact ⟨fun hfree' => (by cases hfree.symm.trans hfree'), rfl⟩
    | _ => exact ⟨fun _ => rfl, rfl⟩
  · have houter := OuterRule.of_step (fun i l hil => hread ⟨i, l, hil⟩) h
    have hkeep : Keeps c c' := by cases houter <;> assumption
    refine ⟨fun hfree => ?_, hkeep.events⟩
    cases houter with
    | started _ hr hrun hopen =>
      rw [(hc.fresh hopen hrun).reads] at hr
      rw [strandFree, hr]
      rfl
    | quiet _ hr => rwa [strandFree, hr]
    | restarted _ hr => rwa [strandFree, hr]
    | stopped _ hr => rwa [strandFree, hr]

lemma events_of_step {s s' : Session} {l : SessionLabel} (hs : Linked s) (h : s.step l = some s')
    (hl : l.isCompletion = false) : s'.client.events = s.client.events := by
  cases SessionRule.of_step h with
  | returned hclient _ => exact (strandFree_of_step hs.chain hclient hl).2
  | client _ hclient => exact (strandFree_of_step hs.chain hclient hl).2
  | @closed throws statement _ _ hs' =>
    cases statement with
    | stop =>
      obtain rfl := Option.some.inj hs'
      have hstop : s.client.step .stop = some (s.client.stop none).2 := rfl
      exact (strandFree_of_step hs.chain hstop rfl).2
    | returned => cases hs'
    | _ =>
      obtain rfl := Option.some.inj hs'
      rfl
  | commandThrew _ => rfl

lemma isHandling_of_closing {s : Session} (hs : Held s) (h : s.isClosing = true) :
    s.isHandling = true := by
  obtain ⟨statement, hclosing, hne⟩ := isClosing_iff.mp h
  obtain ⟨err, hreads⟩ := hs.held h
  rw [isHandling, hclosing, strandFree, hreads]
  simpa using hne

/-- A step of the client starts a handler only when it takes up a completion. -/
lemma isHandling_of_advance {s : Session} {a : Label} {client : AsyncTcpClient} (hs : Held s)
    (h : s.client.step a = some client) (ha : (SessionLabel.client a).isCompletion = false)
    (hbefore : s.isHandling = false) : (s.advance client).isHandling = false := by
  rw [isHandling, Bool.and_eq_false_iff, Bool.not_eq_false', decide_eq_false_iff_not,
    not_not] at hbefore ⊢
  -- the strand is free, or the last handler is over
  rcases hbefore with hfree | hclosing
  · exact Or.inl ((strandFree_of_step hs.chain h ha).1 hfree)
  · exact Or.inr (advance_closing_returned client hclosing)

/-- A step that takes up a completion starts a handler at most, one that escapes ends a handler, and
no other step starts one. -/
lemma isHandling_of_step {s s' : Session} {l : SessionLabel} (hs : Held s)
    (h : s.step l = some s') :
    (s.escapes l).toNat + s'.isHandling.toNat ≤ s.isHandling.toNat + l.isCompletion.toNat := by
  have hone := s'.isHandling.toNat_le
  cases SessionRule.of_step h with
  | returned _ hclosing => simp [Session.escapes, isHandling, hclosing]
  | @client a client ha hclient =>
    show 0 + (s.advance client).isHandling.toNat ≤ _
    cases hl : (SessionLabel.client a).isCompletion with
    | true =>
      rw [Bool.toNat_true]
      omega
    | false =>
      cases hbefore : s.isHandling with
      | true =>
        rw [Bool.toNat_true]
        omega
      | false =>
        rw [isHandling_of_advance hs hclient hl hbefore]
        rfl
  | @closed throws statement _ hclosing hs' =>
    have hne : statement ≠ .returned := by
      rintro rfl
      cases hs'
    rw [isHandling_of_closing hs (isClosing_iff.mpr ⟨statement, hclosing, hne⟩), Bool.toNat_true]
    cases statement with
    | logEndpoint =>
      obtain rfl := Option.some.inj hs'
      cases throws with
      | true => simp [Session.escapes, hclosing, isHandling]
      | false =>
        simp only [Session.escapes, Bool.false_and, Bool.toNat_false]
        omega
    | returned => exact absurd rfl hne
    | _ =>
      simp only [Session.escapes, hclosing, Option.some.injEq, reduceCtorEq, decide_false,
        Bool.and_false, Bool.toNat_false]
      omega
  | commandThrew hreads =>
    have hbefore : s.isHandling = true := by
      rw [isHandling, hs.toLinked.closing_eq_none hreads rfl, strandFree, hreads]
      rfl
    rw [hbefore]
    simp [Session.escapes, isHandling, strandFree]

end Session

/-! ### The server -/

/-- The handlers that an accept keeps running. -/
def AcceptOp.running (op : AcceptOp) : ℕ := op.isHandled.toNat

/-- The handlers that a connection keeps running: `OnNewClientAccepted`, and one of its client. -/
def Connection.running (c : Connection) : ℕ := c.isLive.toNat + c.session.isHandling.toNat

namespace Server

/-- The completion handlers that are running. -/
def running (s : Server) : ℕ :=
  (s.accepts.map AcceptOp.running).sum + (s.connections.map Connection.running).sum

/-- Every `OnConnectionClosed` runs inside a read handler. -/
def AllHeld (s : Server) : Prop := ∀ c ∈ s.connections, c.session.Held

/-! ### Steps -/

/-- What a step makes of the handlers that are running: one that takes up a completion starts one at
most, one that escapes ends one, and no other step starts one. -/
def Occupies (s : Server) (a : ServerLabel) (t : Server) : Prop :=
  (s.escapes a).toNat + t.running ≤ s.running + (s.takesUp a).toNat

lemma Occupies.of_put {s t : Server} {a : ServerLabel} {k : ℕ} {c d : Connection}
    (hc : s.connections[k]? = some c)
    (haccepts : (t.accepts.map AcceptOp.running).sum = (s.accepts.map AcceptOp.running).sum)
    (hconnections : t.connections = s.connections.set k d)
    (h : (s.escapes a).toNat + d.running ≤ c.running + (s.takesUp a).toNat) : s.Occupies a t := by
  have hsum := Core.sum_map_set Connection.running hc d
  rw [Occupies, running, running, haccepts, hconnections]
  omega

lemma Occupies.of_set {s t : Server} {a : ServerLabel} {i : ℕ} {op op' : AcceptOp}
    (hop : s.accepts[i]? = some op) (haccepts : t.accepts = s.accepts.set i op')
    (hconnections : t.connections = s.connections)
    (h : (s.escapes a).toNat + op'.running ≤ op.running + (s.takesUp a).toNat) :
    s.Occupies a t := by
  have hsum := Core.sum_map_set AcceptOp.running hop op'
  rw [Occupies, running, running, haccepts, hconnections]
  omega

lemma Occupies.of_eraseIdx {s t : Server} {a : ServerLabel} {i : ℕ} {op : AcceptOp}
    (hop : s.accepts[i]? = some op) (haccepts : t.accepts = s.accepts.eraseIdx i)
    (hconnections : t.connections = s.connections) (h : (s.escapes a).toNat ≤ op.running) :
    s.Occupies a t := by
  have hsum := Core.sum_map_eraseIdx AcceptOp.running hop
  rw [Occupies, running, running, haccepts, hconnections]
  omega

lemma occupies_handle {s t : Server} {i : ℕ} {throws : Bool} {op : AcceptOp}
    (hop : s.accepts[i]? = some op) (h : s.handle i throws op = some t) :
    s.Occupies (.handle i throws) t := by
  have hescapes : s.escapes (.handle i throws) = op.escapes throws := by
    rw [escapes, hop]
    rfl
  cases op with
  | pending => cases h
  | completed result =>
    have htakes : s.takesUp (.handle i throws) = true := by
      rw [takesUp, hop]
    cases result with
    | error err =>
      simp only [handle] at h
      split_ifs at h
      obtain rfl := Option.some.inj h
      exact .of_eraseIdx hop rfl rfl (by rw [hescapes]; exact le_rfl)
    | ok socket =>
      simp only [handle] at h
      split_ifs at h
      · obtain rfl := Option.some.inj h
        exact .of_set hop rfl rfl (by rw [hescapes, htakes]; exact le_rfl)
      · obtain rfl := Option.some.inj h
        exact .of_eraseIdx hop rfl rfl (by rw [hescapes]; exact le_rfl)
  | logEndpoint socket =>
    cases throws with
    | true =>
      obtain rfl := Option.some.inj h
      exact .of_eraseIdx hop rfl rfl (by rw [hescapes]; exact le_rfl)
    | false =>
      obtain rfl := Option.some.inj h
      exact .of_set hop rfl rfl (by rw [hescapes]; exact Nat.le_add_right 1 _)
  | createClient socket =>
    obtain rfl := Option.some.inj h
    have hsum := Core.sum_map_eraseIdx AcceptOp.running hop
    have hone : AcceptOp.running (.createClient socket) = 1 := rfl
    have hnew : Connection.running ⟨.subscribed (s.clientsCounter + 1) socket, .start⟩ = 1 := rfl
    rw [Occupies, hescapes, running, running]
    simp only [AcceptOp.escapes, Bool.toNat_false, List.map_append, List.map_cons, List.map_nil,
      List.sum_append, List.sum_cons, List.sum_nil, hnew]
    omega

lemma occupies_stepAccepted {s t : Server} {k : ℕ} {c : Connection} (hs : s.AllHeld)
    (hc : s.connections[k]? = some c) (h : s.stepAccepted k c = some t) :
    s.Occupies (.accepted k) t := by
  cases ServerRule.of_stepAccepted hc h with
  | @started _ c' session hc' hat hsession =>
    have hsame := Session.isHandling_of_step (hs c' (List.mem_of_getElem? hc')) hsession
    have hnone : (c'.session.escapes (.client .start)).toNat = 0 := rfl
    have hnot : (SessionLabel.client .start).isCompletion.toNat = 0 := rfl
    refine .of_put (d := ⟨session, .emplace⟩) hc' rfl rfl ?_
    simp only [Connection.running, Connection.isLive, hat]
    show 0 + (1 + _) ≤ 1 + _ + 0
    omega
  | @emplaced _ c' hc' hat =>
    refine .of_put (d := { c' with accepting := .acceptNext }) hc' rfl rfl ?_
    simp only [Connection.running, Connection.isLive, hat]
    exact (Nat.zero_add _).le
  | @nextAccept _ c' hc' hat _ =>
    refine .of_put (d := { c' with accepting := .returned }) hc' ?_ rfl ?_
    · simp [AcceptOp.running, AcceptOp.isHandled]
    · simp only [Connection.running, Connection.isLive, hat]
      show 0 + (0 + _) ≤ 1 + _ + 0
      omega
  | @noAccept _ c' hc' hat _ =>
    refine .of_put (d := { c' with accepting := .returned }) hc' rfl rfl ?_
    simp only [Connection.running, Connection.isLive, hat]
    show 0 + (0 + _) ≤ 1 + _ + 0
    omega

lemma occupies_stepSession {s t : Server} {k : ℕ} {c : Connection} {l : SessionLabel}
    (hs : s.AllHeld) (hc : s.connections[k]? = some c) (h : s.stepSession k c l = some t) :
    s.Occupies (.session k l) t := by
  have key : ∀ {c' : Connection} {session : Session}, s.connections[k]? = some c' →
      c'.session.step l = some session → (s.escapes (.session k l)).toNat +
        ({ c' with session := session } : Connection).running ≤
          c'.running + (s.takesUp (.session k l)).toNat := by
    intro c' session hc' hsession
    have hhandling := Session.isHandling_of_step (hs c' (List.mem_of_getElem? hc')) hsession
    rw [escapes, hc']
    simp only [Option.any_some, Connection.running, Connection.isLive, takesUp]
    omega
  cases ServerRule.of_stepSession hc h with
  | erased hc' _ hsession => exact .of_put hc' rfl rfl (key hc' hsession)
  | session hc' hsession _ => exact .of_put hc' rfl rfl (key hc' hsession)

lemma Occupies.of_step {s t : Server} {a : ServerLabel} (hs : s.AllHeld)
    (h : s.step a = some t) : s.Occupies a t := by
  cases a with
  | startup calls =>
    cases ServerRule.of_stepStartup h with
    | startup _ _ => exact (Nat.zero_add _).le
    | startedBefore _ _ => exact (Nat.zero_add _).le
    | firstAccept _ _ =>
      show 0 + _ ≤ _ + 0
      simp [running, AcceptOp.running, AcceptOp.isHandled]
  | complete i result =>
    obtain ⟨hop, rfl⟩ := step_complete_eq_some h
    exact .of_set hop rfl rfl le_rfl
  | handle i throws =>
    obtain ⟨op, hop, h⟩ := step_handle_eq_some h
    exact occupies_handle hop h
  | accepted k =>
    obtain ⟨c, hc, h⟩ := step_accepted_eq_some h
    exact occupies_stepAccepted hs hc h
  | session k l =>
    obtain ⟨c, hc, h⟩ := step_session_eq_some h
    exact occupies_stepSession hs hc h

lemma AllHeld.put {s t : Server} {k : ℕ} {d : Connection} (hs : s.AllHeld)
    (hd : d.session.Held) (ht : t.connections = s.connections.set k d) : t.AllHeld := by
  intro c hc
  rw [ht] at hc
  rcases List.mem_or_eq_of_mem_set hc with hc | rfl
  · exact hs c hc
  · exact hd

lemma AllHeld.step {s t : Server} {a : ServerLabel} (hs : s.AllHeld) (h : s.step a = some t) :
    t.AllHeld := by
  cases ServerRule.of_step h with
  | @created i throws socket _ =>
    intro c hc
    rcases List.mem_append.mp hc with hc | hc
    · exact hs c hc
    · rw [List.mem_singleton.mp hc]
      exact ⟨Session.linked_subscribed _ _, fun hclosing => by cases hclosing⟩
  | @started k c session hc _ hsession =>
    exact hs.put (d := ⟨session, .emplace⟩) ((hs c (List.mem_of_getElem? hc)).step hsession) rfl
  | @emplaced k c hc _ =>
    exact hs.put (d := { c with accepting := .acceptNext }) (hs c (List.mem_of_getElem? hc)) rfl
  | @nextAccept k c hc _ _ =>
    exact hs.put (d := { c with accepting := .returned }) (hs c (List.mem_of_getElem? hc)) rfl
  | @noAccept k c hc _ _ =>
    exact hs.put (d := { c with accepting := .returned }) (hs c (List.mem_of_getElem? hc)) rfl
  | @erased k c session _ _ hc _ hsession =>
    exact hs.put (d := { c with session := session })
      ((hs c (List.mem_of_getElem? hc)).step hsession) rfl
  | @session k c session _ _ hc hsession _ =>
    exact hs.put (d := { c with session := session })
      ((hs c (List.mem_of_getElem? hc)).step hsession) rfl
  | _ => exact hs

end Server

end EzServer.Application
