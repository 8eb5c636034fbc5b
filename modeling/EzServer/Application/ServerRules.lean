import EzServer.Application.Server

/-!
# What a step of the server can do
-/

namespace EzServer.Application

open Net

/-- `is_started_` is set from here on. -/
def StartupStatement.isListening : StartupStatement → Bool
  | .acceptNext | .subscribe | .returned true => true
  | _ => false

/-- The first accept has been issued. -/
def StartupStatement.isAccepting : StartupStatement → Bool
  | .subscribe | .returned true => true
  | _ => false

namespace Server

/-- The steps of the threads of the server. -/
inductive ServerRule (s : Server) : ServerLabel → Server → Prop where
  | startup {calls : ListenCalls} {startup : StartupStatement} {poolThreads : ℕ}
      {listener : AsyncTcpListener} {subscribed : Bool}
      (hlisten : s.listener.isStarted = s.startup.isListening →
        listener.isStarted = startup.isListening)
      (haccept : startup.isAccepting = s.startup.isAccepting) :
      ServerRule s (.startup calls) { s with
        startup := startup
        poolThreads := poolThreads
        listener := listener
        subscribed := subscribed }
  | startedBefore {calls : ListenCalls} (hat : s.startup = .listen)
      (hlisten : s.listener.isStarted = true) :
      ServerRule s (.startup calls) { s with startup := .subscribe }
  | firstAccept {calls : ListenCalls} (hat : s.startup = .acceptNext)
      (hlisten : s.listener.isStarted = true) :
      ServerRule s (.startup calls) { s with
        accepts := s.accepts ++ [.pending]
        startup := .subscribe }
  | completed {i : ℕ} {result : Except ErrorCode (List UInt8)}
      (hop : s.accepts[i]? = some .pending) :
      ServerRule s (.complete i result) { s with accepts := s.accepts.set i (.completed result) }
  | failed {i : ℕ} {throws : Bool} {err : ErrorCode}
      (hop : s.accepts[i]? = some (.completed (.error err))) :
      ServerRule s (.handle i throws) { s with accepts := s.accepts.eraseIdx i }
  | unheard {i : ℕ} {throws : Bool} {socket : List UInt8}
      (hop : s.accepts[i]? = some (.completed (.ok socket))) (hsub : s.subscribed = false) :
      ServerRule s (.handle i throws) { s with accepts := s.accepts.eraseIdx i }
  | entered {i : ℕ} {throws : Bool} {socket : List UInt8}
      (hop : s.accepts[i]? = some (.completed (.ok socket))) (hsub : s.subscribed = true) :
      ServerRule s (.handle i throws) { s with accepts := s.accepts.set i (.logEndpoint socket) }
  | thrown {i : ℕ} {socket : List UInt8} (hop : s.accepts[i]? = some (.logEndpoint socket)) :
      ServerRule s (.handle i true) { s with
        accepts := s.accepts.eraseIdx i
        poolThreads := s.poolThreads - 1 }
  | logged {i : ℕ} {socket : List UInt8} (hop : s.accepts[i]? = some (.logEndpoint socket)) :
      ServerRule s (.handle i false) { s with accepts := s.accepts.set i (.createClient socket) }
  | created {i : ℕ} {throws : Bool} {socket : List UInt8}
      (hop : s.accepts[i]? = some (.createClient socket)) :
      ServerRule s (.handle i throws) { s with
        accepts := s.accepts.eraseIdx i
        clientsCounter := s.clientsCounter + 1
        connections := s.connections ++ [⟨.subscribed (s.clientsCounter + 1) socket, .start⟩] }
  | started {k : ℕ} {c : Connection} {session : Session} (hc : s.connections[k]? = some c)
      (hat : c.accepting = .start) (hsession : c.session.step (.client .start) = some session) :
      ServerRule s (.accepted k) (s.put k ⟨session, .emplace⟩)
  | emplaced {k : ℕ} {c : Connection} (hc : s.connections[k]? = some c)
      (hat : c.accepting = .emplace) :
      ServerRule s (.accepted k) { s.put k { c with accepting := .acceptNext } with
        clients := s.clients.emplace c.session.id k }
  | nextAccept {k : ℕ} {c : Connection} (hc : s.connections[k]? = some c)
      (hat : c.accepting = .acceptNext) (hlisten : s.listener.isStarted = true) :
      ServerRule s (.accepted k) { s.put k { c with accepting := .returned } with
        accepts := s.accepts ++ [.pending] }
  | noAccept {k : ℕ} {c : Connection} (hc : s.connections[k]? = some c)
      (hat : c.accepting = .acceptNext) (hlisten : s.listener.isStarted = false) :
      ServerRule s (.accepted k) { s.put k { c with accepting := .returned } with
        poolThreads := s.poolThreads - 1 }
  | erased {k : ℕ} {c : Connection} {session : Session} {throws : Bool} {err : ErrorCode}
      (hc : s.connections[k]? = some c) (hclosing : c.session.closing = some (.erase err))
      (hsession : c.session.step (.closed throws) = some session) :
      ServerRule s (.session k (.closed throws)) { s.put k { c with session := session } with
        clients := s.clients.erase c.session.id }
  | session {k : ℕ} {c : Connection} {session : Session} {l : SessionLabel} {poolThreads : ℕ}
      (hc : s.connections[k]? = some c) (hsession : c.session.step l = some session)
      (hclosing : ∀ throws, l = .closed throws → ∀ err, c.session.closing ≠ some (.erase err)) :
      ServerRule s (.session k l) { s.put k { c with session := session } with
        poolThreads := poolThreads }

lemma ServerRule.of_stepStartup {s t : Server} {calls : ListenCalls}
    (h : s.stepStartup calls = some t) : ServerRule s (.startup calls) t := by
  unfold stepStartup at h
  cases hat : s.startup with
  | startThread left =>
    cases left with
    | zero =>
      simp only [hat] at h
      obtain rfl := Option.some.inj h
      exact .startup (by simp [hat, StartupStatement.isListening]) (by rw [hat]; rfl)
    | succ left =>
      simp only [hat] at h
      obtain rfl := Option.some.inj h
      exact .startup (by simp [hat, StartupStatement.isListening]) (by rw [hat]; rfl)
  | initializeListener =>
    simp only [hat, AsyncTcpListener.initializeAcceptor, if_true] at h
    obtain rfl := Option.some.inj h
    exact .startup (by simp [hat, StartupStatement.isListening]) (by rw [hat]; rfl)
  | listen =>
    simp only [hat] at h
    have hlisten := AsyncTcpListener.isStarted_listen calls s.listener
    split_ifs at h with hstarted hresult
    · obtain rfl := Option.some.inj h
      exact .startedBefore hat hstarted
    · obtain rfl := Option.some.inj h
      refine .startup (fun _ => ?_) (by rw [hat]; rfl)
      simpa [hresult, StartupStatement.isListening] using hlisten
    · obtain rfl := Option.some.inj h
      refine .startup (fun _ => ?_) (by rw [hat]; rfl)
      simpa [hresult, StartupStatement.isListening, hstarted] using hlisten
  | acceptNext =>
    simp only [hat, acceptNext] at h
    split_ifs at h with hstarted
    · obtain rfl := Option.some.inj h
      exact .firstAccept hat hstarted
    · obtain rfl := Option.some.inj h
      refine .startup (fun _ => ?_) (by rw [hat]; rfl)
      simpa [StartupStatement.isListening] using hstarted
  | subscribe =>
    simp only [hat] at h
    obtain rfl := Option.some.inj h
    exact .startup (by simp [hat, StartupStatement.isListening]) (by rw [hat]; rfl)
  | returned result =>
    simp only [hat] at h
    cases h

lemma ServerRule.of_handle {s t : Server} {i : ℕ} {throws : Bool} {op : AcceptOp}
    (hop : s.accepts[i]? = some op) (h : s.handle i throws op = some t) :
    ServerRule s (.handle i throws) t := by
  unfold handle at h
  cases op with
  | pending => cases h
  | completed result =>
    cases result with
    | error err =>
      simp only at h
      split_ifs at h
      obtain rfl := Option.some.inj h
      exact .failed hop
    | ok socket =>
      simp only at h
      split_ifs at h with hpool hsub
      · obtain rfl := Option.some.inj h
        exact .entered hop hsub
      · obtain rfl := Option.some.inj h
        exact .unheard hop (by simpa using hsub)
  | logEndpoint socket =>
    cases throws with
    | true =>
      obtain rfl := Option.some.inj h
      exact .thrown hop
    | false =>
      obtain rfl := Option.some.inj h
      exact .logged hop
  | createClient socket =>
    obtain rfl := Option.some.inj h
    exact .created hop

lemma ServerRule.of_stepAccepted {s t : Server} {k : ℕ} {c : Connection}
    (hc : s.connections[k]? = some c) (h : s.stepAccepted k c = some t) :
    ServerRule s (.accepted k) t := by
  rw [stepAccepted] at h
  cases hat : c.accepting with
  | start =>
    simp only [hat, Option.bind_eq_bind, Option.bind_eq_some_iff] at h
    obtain ⟨session, hsession, h⟩ := h
    obtain rfl := Option.some.inj h
    exact .started hc hat hsession
  | emplace =>
    simp only [hat] at h
    obtain rfl := Option.some.inj h
    exact .emplaced hc hat
  | acceptNext =>
    have hlistener : ∀ d, (s.put k d).listener = s.listener := fun _ => rfl
    simp only [hat, acceptNext, hlistener] at h
    cases hlisten : s.listener.isStarted with
    | true =>
      simp only [hlisten, if_true] at h
      obtain rfl := Option.some.inj h
      exact .nextAccept hc hat hlisten
    | false =>
      simp only [hlisten, Bool.false_eq_true, if_false] at h
      obtain rfl := Option.some.inj h
      exact .noAccept hc hat hlisten
  | returned =>
    simp only [hat] at h
    cases h

lemma ServerRule.of_stepSession {s t : Server} {k : ℕ} {c : Connection} {l : SessionLabel}
    (hc : s.connections[k]? = some c) (h : s.stepSession k c l = some t) :
    ServerRule s (.session k l) t := by
  rw [stepSession] at h
  split_ifs at h with hready
  clear hready
  simp only [Option.bind_eq_bind, Option.bind_eq_some_iff] at h
  obtain ⟨session, hsession, h⟩ := h
  split at h
  · next hclosing =>
    obtain rfl := Option.some.inj h
    exact .erased hc hclosing hsession
  · next hclosing =>
    obtain rfl := Option.some.inj h
    exact .session hc hsession fun _ _ err he => by simp [hclosing] at he
  · obtain rfl := Option.some.inj h
    exact .session hc hsession fun _ hl => by cases hl
  · next hnot _ =>
    obtain rfl := Option.some.inj h
    exact .session hc hsession fun throws hl err hclosing => hnot err throws hclosing hl

/-! ### Steps -/

lemma step_complete_eq_some {s t : Server} {i : ℕ} {result : Except ErrorCode (List UInt8)}
    (h : s.step (.complete i result) = some t) :
    s.accepts[i]? = some .pending ∧
      t = { s with accepts := s.accepts.set i (.completed result) } := by
  simp only [step] at h
  split at h
  · next hop => exact ⟨hop, (Option.some.inj h).symm⟩
  · cases h

lemma step_handle_eq_some {s t : Server} {i : ℕ} {throws : Bool}
    (h : s.step (.handle i throws) = some t) :
    ∃ op, s.accepts[i]? = some op ∧ s.handle i throws op = some t :=
  Option.bind_eq_some_iff.mp h

lemma step_accepted_eq_some {s t : Server} {k : ℕ} (h : s.step (.accepted k) = some t) :
    ∃ c, s.connections[k]? = some c ∧ s.stepAccepted k c = some t :=
  Option.bind_eq_some_iff.mp h

lemma step_session_eq_some {s t : Server} {k : ℕ} {l : SessionLabel}
    (h : s.step (.session k l) = some t) :
    ∃ c, s.connections[k]? = some c ∧ s.stepSession k c l = some t :=
  Option.bind_eq_some_iff.mp h

/-- The rules cover every step. -/
lemma ServerRule.of_step {s t : Server} {a : ServerLabel} (h : s.step a = some t) :
    ServerRule s a t := by
  cases a with
  | startup calls => exact of_stepStartup h
  | complete i result =>
    obtain ⟨hop, rfl⟩ := step_complete_eq_some h
    exact .completed hop
  | handle i throws =>
    obtain ⟨op, hop, h⟩ := step_handle_eq_some h
    exact of_handle hop h
  | accepted k =>
    obtain ⟨c, hc, h⟩ := step_accepted_eq_some h
    exact of_stepAccepted hc h
  | session k l =>
    obtain ⟨c, hc, h⟩ := step_session_eq_some h
    exact of_stepSession hc h

end Server

end EzServer.Application
