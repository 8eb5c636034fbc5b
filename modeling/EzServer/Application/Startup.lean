import EzServer.Application.ServerRules
import EzServer.Net.Listening

/-!
# What Startup returns

`Startup` as one call of the listener after the other, and as the main thread of a server whose pool
threads already accept connections. They return the same.
-/

namespace EzServer.Application

open EzServer.Core Net

/-- `Startup` in one piece, as far as the listener is concerned. -/
def runStartup (calls : ListenCalls) : Bool × AsyncTcpListener :=
  match AsyncTcpListener.init.initializeAcceptor with
  | (false, l) => (false, l)
  | (true, l) => l.start calls

lemma runStartup_iff (calls : ListenCalls) :
    (runStartup calls).1 = true ↔ calls = ⟨false, false, false⟩ := by
  obtain ⟨openFails, bindFails, listenFails⟩ := calls
  revert openFails bindFails listenFails
  decide

namespace Server

/-- Only the main thread changes the listener. -/
lemma listener_of_step {s t : Server} {a : ServerLabel} (h : s.step a = some t) :
    (∃ calls, a = .startup calls) ∨ t.startup = s.startup ∧ t.listener = s.listener := by
  cases a with
  | startup calls => exact Or.inl ⟨calls, rfl⟩
  | _ =>
    apply Or.inr
    cases ServerRule.of_step h <;> exact ⟨rfl, rfl⟩

/-- How far the listener is at each statement of `Startup`. -/
def OnTheWay (calls : ListenCalls) (s : Server) : Prop :=
  match s.startup with
  | .startThread _ | .initializeListener => s.listener = .init
  | .listen => s.listener = AsyncTcpListener.init.initializeAcceptor.2
  | .acceptNext | .subscribe => s.listener.isStarted = true ∧ (runStartup calls).1 = true
  | .returned result => (runStartup calls).1 = result

lemma OnTheWay.listen {calls : ListenCalls} {s t : Server} (hat : s.startup = .listen)
    (hs : s.OnTheWay calls) (h : s.stepStartup calls = some t) : t.OnTheWay calls := by
  have hlistener : s.listener = AsyncTcpListener.init.initializeAcceptor.2 := by
    rw [OnTheWay, hat] at hs
    exact hs
  have hidle : s.listener.isStarted = false := by rw [hlistener]; rfl
  have hresult : (runStartup calls).1 = (s.listener.listen calls).1 := by
    rw [← AsyncTcpListener.start_of_not_isStarted hidle, hlistener]
    rfl
  have hflag := AsyncTcpListener.isStarted_listen calls s.listener
  rw [stepStartup, hat] at h
  dsimp only at h
  rw [if_neg (by simp [hidle])] at h
  obtain rfl := Option.some.inj h
  rw [OnTheWay, hresult]
  cases hlisten : (s.listener.listen calls).1 with
  | true =>
    refine ⟨?_, rfl⟩
    show (s.listener.listen calls).2.isStarted = true
    rw [hflag, hlisten]
    rfl
  | false => rfl

lemma OnTheWay.startup {calls : ListenCalls} {s t : Server} (hs : s.OnTheWay calls)
    (h : s.stepStartup calls = some t) : t.OnTheWay calls := by
  cases hat : s.startup with
  | listen => exact hs.listen hat h
  | startThread left =>
    rw [OnTheWay, hat] at hs
    rw [stepStartup, hat] at h
    cases left with
    | zero =>
      obtain rfl := Option.some.inj h
      exact hs
    | succ left =>
      obtain rfl := Option.some.inj h
      exact hs
  | initializeListener =>
    rw [OnTheWay, hat] at hs
    rw [stepStartup, hat] at h
    obtain rfl := Option.some.inj h
    show s.listener.initializeAcceptor.2 = _
    rw [show s.listener = .init from hs]
  | acceptNext =>
    rw [OnTheWay, hat] at hs
    rw [stepStartup, hat] at h
    dsimp only at h
    rw [Server.acceptNext, if_pos hs.1] at h
    obtain rfl := Option.some.inj h
    exact hs
  | subscribe =>
    rw [OnTheWay, hat] at hs
    rw [stepStartup, hat] at h
    obtain rfl := Option.some.inj h
    exact hs.2
  | returned result =>
    rw [stepStartup, hat] at h
    cases h

lemma OnTheWay.run {calls : ListenCalls} {as : List ServerLabel} {s t : Server}
    (hs : s.OnTheWay calls) (hcalls : ∀ c, ServerLabel.startup c ∈ as → c = calls)
    (hrun : Core.run step s as = some t) : t.OnTheWay calls := by
  induction as generalizing s with
  | nil =>
    obtain rfl := Option.some.inj hrun
    exact hs
  | cons a as ih =>
    obtain ⟨u, hu, hrest⟩ := run_cons_eq_some.mp hrun
    apply ih _ (fun c hc => hcalls c (List.mem_cons_of_mem _ hc)) hrest
    rcases listener_of_step hu with ⟨c, rfl⟩ | ⟨hstartup, hlistener⟩
    · obtain rfl := hcalls c List.mem_cons_self
      exact hs.startup hu
    · rw [OnTheWay, hstartup, hlistener]
      exact hs

/-- In every run in which the operating system answers `calls` to the listener, whatever the pool
threads do in between, `Startup` returns true if and only if none of these calls fails. -/
theorem startup_returned {threadsCount : ℕ} {calls : ListenCalls} {as : List ServerLabel}
    {s : Server} {result : Bool} (hrun : Core.run step (init threadsCount) as = some s)
    (hcalls : ∀ c, ServerLabel.startup c ∈ as → c = calls)
    (hreturned : s.startup = .returned result) :
    result = true ↔ calls = ⟨false, false, false⟩ := by
  have hinit : (init threadsCount).OnTheWay calls := rfl
  have hs := hinit.run hcalls hrun
  rw [OnTheWay, hreturned] at hs
  rw [← runStartup_iff, show (runStartup calls).1 = result from hs]

/-- A connection is accepted and lost before `Startup` returns true. -/
theorem startup_returned_early :
    ∃ s, Core.run step (init 1) (List.replicate 5 (.startup ⟨false, false, false⟩) ++
        [.complete 0 (.ok []), .handle 0 false, .startup ⟨false, false, false⟩]) = some s ∧
      s.startup = .returned true ∧
      (true = true ↔ (⟨false, false, false⟩ : ListenCalls) = ⟨false, false, false⟩) :=
  ⟨_, rfl, rfl, @startup_returned 1 _ (List.replicate 5 (.startup ⟨false, false, false⟩) ++
    [.complete 0 (.ok []), .handle 0 false, .startup ⟨false, false, false⟩]) _ true rfl
    (by simp) rfl⟩

end Server

end EzServer.Application
