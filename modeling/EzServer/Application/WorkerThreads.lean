import EzServer.Application.AcceptLoop

/-!
# The worker threads

`Startup` puts `io_.run()` into `threads_count_` tasks and never looks at them again, so an
exception that leaves a completion handler ends a task for good. Three things can throw past the
handlers: the log of `remote_endpoint()` in `OnNewClientAccepted`, the same log in
`OnConnectionClosed`, and a command that throws something `OnMessageReceived` does not catch.
-/

namespace EzServer.Application

open Net

/-- The threads that `Startup` has yet to start. -/
def StartupStatement.left : StartupStatement → ℕ
  | .startThread left => left
  | _ => 0

/-- The step of `OnNewClientAccepted` ends by an exception. -/
def AcceptOp.escapes (throws : Bool) : AcceptOp → Bool
  | .logEndpoint _ => throws
  | _ => false

/-- `OnNewClientAccepted` is running. -/
def AcceptOp.isHandled : AcceptOp → Bool
  | .logEndpoint _ | .createClient _ => true
  | _ => false

/-- The step ends a handler of the client by an exception. -/
def Session.escapes (s : Session) : SessionLabel → Bool
  | .closed throws => throws && decide (s.closing = some .logEndpoint)
  | .commandThrows => true
  | .client _ => false

namespace Server

/-- The step ends a completion handler by an exception. -/
def escapes (s : Server) : ServerLabel → Bool
  | .handle i throws => s.accepts[i]?.any (·.escapes throws)
  | .session k l => s.connections[k]?.any (·.session.escapes l)
  | _ => false

/-- The pool tasks inside `io_.run()`, and those that are still to be started. -/
def threads (s : Server) : ℕ := s.poolThreads + s.startup.left

/-- Every task of the pool is there. -/
def KeepsThreads (threadsCount : ℕ) (s : Server) : Prop := s.threads = threadsCount

/-- A handler has been run. -/
def Busy (s : Server) : Prop := s.connections ≠ [] ∨ ∃ op ∈ s.accepts, op.isHandled = true

/-- An operation is pending or its completion is queued. -/
def hasWork (s : Server) : Bool :=
  !s.accepts.isEmpty || s.connections.any fun c =>
    !c.session.client.reads.isEmpty || !c.session.client.sends.isEmpty ||
      !c.session.client.writes.isEmpty

/-! ### Threads and steps -/

lemma threads_stepStartup {s t : Server} {calls : ListenCalls}
    (h : s.stepStartup calls = some t) : t.threads = s.threads := by
  rw [stepStartup] at h
  cases hat : s.startup with
  | startThread left =>
    cases left with
    | zero =>
      simp only [hat] at h
      obtain rfl := Option.some.inj h
      simp [threads, hat, StartupStatement.left]
    | succ left =>
      simp only [hat] at h
      obtain rfl := Option.some.inj h
      simp only [threads, hat, StartupStatement.left]
      omega
  | initializeListener =>
    simp only [hat, AsyncTcpListener.initializeAcceptor, if_true] at h
    obtain rfl := Option.some.inj h
    simp [threads, hat, StartupStatement.left]
  | listen =>
    simp only [hat] at h
    split_ifs at h <;> obtain rfl := Option.some.inj h <;>
      simp [threads, hat, StartupStatement.left]
  | acceptNext =>
    simp only [hat, acceptNext] at h
    split_ifs at h <;> obtain rfl := Option.some.inj h <;>
      simp [threads, hat, StartupStatement.left]
  | subscribe =>
    simp only [hat] at h
    obtain rfl := Option.some.inj h
    simp [threads, hat, StartupStatement.left]
  | returned result =>
    simp only [hat] at h
    cases h

/-- The step leaves `Startup` alone, and takes a thread exactly if it escapes. -/
def TakesThread (escapes : Bool) (s t : Server) : Prop :=
  t.startup = s.startup ∧ t.poolThreads = if escapes then s.poolThreads - 1 else s.poolThreads

lemma takesThread_handle {s t : Server} {i : ℕ} {throws : Bool} {op : AcceptOp}
    (h : s.handle i throws op = some t) : TakesThread (op.escapes throws) s t := by
  unfold handle at h
  cases op with
  | pending => cases h
  | completed result =>
    cases result with
    | error err =>
      simp only at h
      split_ifs at h
      obtain rfl := Option.some.inj h
      exact ⟨rfl, rfl⟩
    | ok socket =>
      simp only at h
      split_ifs at h <;> obtain rfl := Option.some.inj h <;> exact ⟨rfl, rfl⟩
  | logEndpoint socket =>
    cases throws <;> obtain rfl := Option.some.inj h <;> exact ⟨rfl, rfl⟩
  | createClient socket =>
    obtain rfl := Option.some.inj h
    exact ⟨rfl, rfl⟩

/-- The listener of a server with clients is started, so `AcceptNext` does not throw. -/
lemma takesThread_stepAccepted {s t : Server} {k : ℕ} {c : Connection} (hs : Serving s)
    (hc : s.connections[k]? = some c) (h : s.stepAccepted k c = some t) :
    TakesThread false s t := by
  have hlisten : s.listener.isStarted = true :=
    isStarted_of_isAccepting hs (isAccepting_of_connection hs hc)
  cases ServerRule.of_stepAccepted hc h with
  | started _ _ _ => exact ⟨rfl, rfl⟩
  | emplaced _ _ => exact ⟨rfl, rfl⟩
  | nextAccept _ _ _ => exact ⟨rfl, rfl⟩
  | noAccept _ _ hnot =>
    rw [hlisten] at hnot
    cases hnot

lemma takesThread_stepSession {s t : Server} {k : ℕ} {c : Connection} {l : SessionLabel}
    (h : s.stepSession k c l = some t) : TakesThread (c.session.escapes l) s t := by
  rw [stepSession] at h
  split_ifs at h with hready
  simp only [Option.bind_eq_bind, Option.bind_eq_some_iff] at h
  obtain ⟨session, hsession, h⟩ := h
  split at h
  · next throws hclosing =>
    obtain rfl := Option.some.inj h
    refine ⟨rfl, ?_⟩
    simp [Session.escapes, hclosing, put]
  · next hclosing =>
    obtain rfl := Option.some.inj h
    refine ⟨rfl, ?_⟩
    simp [Session.escapes, hclosing]
  · obtain rfl := Option.some.inj h
    exact ⟨rfl, rfl⟩
  · next l _ _ hcommand _ hlog =>
    obtain rfl := Option.some.inj h
    have hnot : c.session.escapes l = false := by
      cases l with
      | client l => rfl
      | closed throws =>
        cases throws with
        | false => rfl
        | true => simpa [Session.escapes] using fun hclosing => hlog hclosing rfl
      | commandThrows => exact (hcommand rfl).elim
    rw [hnot]
    exact ⟨rfl, rfl⟩

/-- A step either keeps the threads of the server, or escapes and takes one of them. -/
lemma threads_of_step {s t : Server} {a : ServerLabel} (hs : Serving s) (h : s.step a = some t) :
    (s.escapes a = false ∧ t.threads = s.threads) ∨
      (s.escapes a = true ∧ t.startup = s.startup ∧ t.poolThreads = s.poolThreads - 1) := by
  have key : ∀ {escapes : Bool}, s.escapes a = escapes → TakesThread escapes s t →
      (s.escapes a = false ∧ t.threads = s.threads) ∨
        (s.escapes a = true ∧ t.startup = s.startup ∧ t.poolThreads = s.poolThreads - 1) := by
    rintro escapes hescapes ⟨hstartup, hpool⟩
    cases escapes with
    | false => exact Or.inl ⟨hescapes, by simp [threads, hstartup, hpool]⟩
    | true => exact Or.inr ⟨hescapes, hstartup, hpool⟩
  cases a with
  | startup calls => exact Or.inl ⟨rfl, threads_stepStartup h⟩
  | complete i result =>
    obtain ⟨-, rfl⟩ := step_complete_eq_some h
    exact Or.inl ⟨rfl, rfl⟩
  | handle i throws =>
    obtain ⟨op, hop, h⟩ := step_handle_eq_some h
    exact key (by simp [escapes, hop]) (takesThread_handle h)
  | accepted k =>
    obtain ⟨c, hc, h⟩ := step_accepted_eq_some h
    exact key rfl (takesThread_stepAccepted hs hc h)
  | session k l =>
    obtain ⟨c, hc, h⟩ := step_session_eq_some h
    exact key (by simp [escapes, hc]) (takesThread_stepSession h)

/-! ### Handlers run on threads -/

lemma busy_of_accept {s : Server} {i : ℕ} {op : AcceptOp} (hop : s.accepts[i]? = some op)
    (hhandled : op.isHandled = true) : s.Busy :=
  Or.inr ⟨op, List.mem_of_getElem? hop, hhandled⟩

lemma busy_of_connection {s : Server} {k : ℕ} {c : Connection}
    (hc : s.connections[k]? = some c) : s.Busy :=
  Or.inl (List.ne_nil_of_mem (List.mem_of_getElem? hc))

lemma busy_of_escapes {s : Server} {a : ServerLabel} (h : s.escapes a = true) : s.Busy := by
  cases a with
  | handle i throws =>
    obtain ⟨op, hop, hescapes⟩ := (Option.any_eq_true _ _).mp h
    apply busy_of_accept hop
    cases op <;> first | rfl | cases hescapes
  | session k l =>
    obtain ⟨c, hc, _⟩ := (Option.any_eq_true _ _).mp h
    exact busy_of_connection hc
  | _ => cases h

lemma Busy.isAccepting {s : Server} (hs : Serving s) (h : s.Busy) : s.isAccepting = true := by
  by_contra hnot
  obtain ⟨haccepts, hconnections⟩ := hs.quiet (by simpa using hnot)
  rcases h with h | ⟨op, hop, _⟩
  · exact h hconnections
  · simp [haccepts] at hop

lemma left_of_isAccepting {s : Server} (h : s.isAccepting = true) : s.startup.left = 0 := by
  rw [Server.isAccepting] at h
  generalize s.startup = statement at h
  cases statement <;> first | rfl | cases h

/-- The new accepts are not in the middle of `OnNewClientAccepted`. -/
lemma Busy.of_accepts {s t : Server} (ht : t.Busy) (hconnections : t.connections = s.connections)
    (haccepts : ∀ op ∈ t.accepts, op.isHandled = true → op ∈ s.accepts) : s.Busy := by
  rcases ht with ht | ⟨op, hop, hhandled⟩
  · exact Or.inl (hconnections ▸ ht)
  · exact Or.inr ⟨op, haccepts op hop hhandled, hhandled⟩

/-- A server gets busy by a thread of the pool that enters a handler. -/
lemma Busy.of_step {s t : Server} {a : ServerLabel} (h : s.step a = some t) (ht : t.Busy) :
    s.Busy ∨ 0 < s.poolThreads := by
  cases ServerRule.of_step h with
  | startup _ _ => exact Or.inl ht
  | startedBefore _ _ => exact Or.inl ht
  | firstAccept _ _ =>
    refine Or.inl (ht.of_accepts rfl fun op hop hhandled => ?_)
    rcases List.mem_append.mp hop with hop | hop
    · exact hop
    · obtain rfl := List.mem_singleton.mp hop
      cases hhandled
  | completed _ =>
    refine Or.inl (ht.of_accepts rfl fun op hop hhandled => ?_)
    rcases List.mem_or_eq_of_mem_set hop with hop | rfl
    · exact hop
    · cases hhandled
  | failed _ => exact Or.inl (ht.of_accepts rfl fun _ hop _ => List.mem_of_mem_eraseIdx hop)
  | unheard _ _ => exact Or.inl (ht.of_accepts rfl fun _ hop _ => List.mem_of_mem_eraseIdx hop)
  | entered hop hsub =>
    right
    by_contra hpool
    simp [step, hop, handle, hsub, hpool] at h
  | thrown hop => exact Or.inl (busy_of_accept hop rfl)
  | logged hop => exact Or.inl (busy_of_accept hop rfl)
  | created hop => exact Or.inl (busy_of_accept hop rfl)
  | started hc _ _ => exact Or.inl (busy_of_connection hc)
  | emplaced hc _ => exact Or.inl (busy_of_connection hc)
  | nextAccept hc _ _ => exact Or.inl (busy_of_connection hc)
  | noAccept hc _ _ => exact Or.inl (busy_of_connection hc)
  | erased hc _ _ => exact Or.inl (busy_of_connection hc)
  | session hc _ _ => exact Or.inl (busy_of_connection hc)

/-- The threads of a server are never more than were asked for, and no handler runs without one. -/
structure Manned (threadsCount : ℕ) (s : Server) : Prop where
  serving : Serving s
  threads_le : s.threads ≤ threadsCount
  pos_of_busy : s.Busy → 0 < threadsCount

lemma manned_init (threadsCount : ℕ) : Manned threadsCount (init threadsCount) where
  serving := serving_init threadsCount
  threads_le := by simp [threads, init, StartupStatement.left]
  pos_of_busy := by
    rintro (h | ⟨op, hop, _⟩)
    · exact absurd rfl h
    · cases hop

lemma Manned.step {threadsCount : ℕ} {s t : Server} {a : ServerLabel} (hs : Manned threadsCount s)
    (h : s.step a = some t) : Manned threadsCount t where
  serving := hs.serving.step h
  threads_le := by
    have hle := hs.threads_le
    rcases threads_of_step hs.serving h with ⟨_, heq⟩ | ⟨_, hstartup, hpool⟩
    · exact heq.trans_le hle
    · simp only [threads] at hle ⊢
      rw [hstartup, hpool]
      omega
  pos_of_busy := by
    intro ht
    rcases ht.of_step h with hbusy | hpool
    · exact hs.pos_of_busy hbusy
    · have hle := hs.threads_le
      simp only [threads] at hle
      omega

/-- A step keeps a full pool exactly if no exception escapes. -/
lemma keepsThreads_step_iff {threadsCount : ℕ} {s t : Server} {a : ServerLabel}
    (hs : Manned threadsCount s) (hkeeps : KeepsThreads threadsCount s)
    (h : s.step a = some t) : KeepsThreads threadsCount t ↔ s.escapes a = false := by
  rcases threads_of_step hs.serving h with ⟨hescapes, heq⟩ | ⟨hescapes, hstartup, hpool⟩
  · exact iff_of_true (heq.trans hkeeps) hescapes
  · have hbusy : s.Busy := busy_of_escapes hescapes
    have hpos : 0 < threadsCount := hs.pos_of_busy hbusy
    have hleft : s.startup.left = 0 := left_of_isAccepting (hbusy.isAccepting hs.serving)
    refine iff_of_false (fun hkeeps' => ?_) (by simp [hescapes])
    simp only [KeepsThreads, threads, hstartup, hpool, hleft] at hkeeps hkeeps'
    omega

/-! ### Runs -/

/-- Along a run, every task of the pool is there in every state if and only if no step ends a
completion handler by an exception. -/
theorem keepsThreads_iff_not_escapes {threadsCount : ℕ} {as : List ServerLabel} {s : Server}
    (hrun : Core.run step (init threadsCount) as = some s) :
    Core.EveryState step (KeepsThreads threadsCount) (init threadsCount) as ↔
      Core.EveryStep step (fun t a => t.escapes a = false) (init threadsCount) as :=
  Core.everyState_iff_everyStep (fun _ _ _ hs _ h => Manned.step hs h)
    (fun _ _ _ hs hkeeps _ h => keepsThreads_step_iff hs hkeeps h)
    (manned_init threadsCount) (Nat.zero_add threadsCount)
    (Core.EveryStep.of_forall (fun _ _ => trivial) _ _) hrun

/-- The server with one thread up to its first client. -/
theorem keepsThreads_iff_not_escapes_first :
    let as := List.replicate 6 (.startup ⟨false, false, false⟩) ++ [.complete 0 (.ok []),
      .handle 0 false, .handle 0 false, .handle 0 false, .accepted 0, .accepted 0, .accepted 0]
    Core.EveryState step (KeepsThreads 1) (init 1) as ↔
      Core.EveryStep step (fun t a => t.escapes a = false) (init 1) as :=
  keepsThreads_iff_not_escapes rfl

/-- A second peer that is gone before its endpoint is logged takes the only thread away from a
first client that is still being read. -/
theorem not_keepsThreads_of_thrown :
    ¬ ∀ (threadsCount : ℕ) (as : List ServerLabel) (s : Server),
      Core.run step (init threadsCount) as = some s → s.hasWork = true →
      KeepsThreads threadsCount s := by
  intro h
  have hkeeps := h 1 (List.replicate 6 (.startup ⟨false, false, false⟩) ++ [.complete 0 (.ok []),
    .handle 0 false, .handle 0 false, .handle 0 false, .accepted 0, .accepted 0, .accepted 0,
    .complete 0 (.ok []), .handle 0 false, .handle 0 true]) _ rfl (by decide)
  have hzero : 0 = 1 := hkeeps
  cases hzero

end Server

end EzServer.Application
