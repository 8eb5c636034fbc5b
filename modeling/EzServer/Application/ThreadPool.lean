import EzServer.Application.WorkerThreads

/-!
# The thread pool

`~Application` clears `thread_pool_`, which waits for every task of the pool, and a task ends when
`io_.run()` has run out of work. Until `Startup` returns, its `work w` keeps the tasks inside; from
then on it is the accept that does. So the pool of a server that failed to start can be cleared, and
that of a server that started cannot.
-/

namespace EzServer.Application

open Net

/-- `w` is gone. -/
def StartupStatement.isReturned : StartupStatement → Bool
  | .returned _ => true
  | _ => false

namespace Server

/-- There is an operation that has not completed, or a handler that has not returned. -/
def hasOutstanding (s : Server) : Bool := s.hasWork || s.connections.any Connection.isLive

/-- The step takes up a queued completion. -/
def takesUp (s : Server) : ServerLabel → Bool
  | .handle i _ =>
    match s.accepts[i]? with
    | some (.completed _) => true
    | _ => false
  | .session _ l => l.isCompletion
  | _ => false

end Server

/-- The server with `io_` and the destructor of the application. -/
structure Pool where
  server : Server
  /-- `io_` has run out of work, and `io_.run()` returns. -/
  stopped : Bool
  /-- `thread_pool_.clear()` has returned. -/
  cleared : Bool

inductive PoolLabel where
  | server (a : ServerLabel)
  /-- `io_.run()` returns in one of the tasks. -/
  | leave
  /-- `thread_pool_.clear()` returns. -/
  | clear

namespace Pool

def init (threadsCount : ℕ) : Pool where
  server := .init threadsCount
  stopped := false
  cleared := false

def step (p : Pool) : PoolLabel → Option Pool
  | .server a =>
    if p.stopped && p.server.takesUp a then none
    else do
      let server ← p.server.step a
      return { p with server := server }
  | .leave =>
    if 0 < p.server.poolThreads ∧
        (p.stopped ∨ p.server.startup.isReturned ∧ ¬ p.server.hasOutstanding) then
      some { p with
        server := { p.server with poolThreads := p.server.poolThreads - 1 }
        stopped := true }
    else none
  | .clear =>
    if p.server.startup.isReturned ∧ p.server.poolThreads = 0 then some { p with cleared := true }
    else none

/-- A step after which there is still an accept, and which no exception ends. -/
def sound (p : Pool) : PoolLabel → Bool
  | .server a => p.server.heard a && Server.endpointKnown a && !p.server.escapes a
  | _ => true

/-! ### Rules -/

/-- The steps of the pool. -/
inductive PoolRule (p : Pool) : PoolLabel → Pool → Prop where
  | server {a : ServerLabel} {server : Server} (hserver : p.server.step a = some server) :
      PoolRule p (.server a) { p with server := server }
  | leave (hpos : 0 < p.server.poolThreads)
      (hout : p.stopped = true ∨
        p.server.startup.isReturned = true ∧ p.server.hasOutstanding = false) :
      PoolRule p .leave { p with
        server := { p.server with poolThreads := p.server.poolThreads - 1 }
        stopped := true }
  | clear (hreturned : p.server.startup.isReturned = true) (hzero : p.server.poolThreads = 0) :
      PoolRule p .clear { p with cleared := true }

lemma PoolRule.of_step {p q : Pool} {a : PoolLabel} (h : p.step a = some q) : PoolRule p a q := by
  cases a with
  | server a =>
    simp only [step] at h
    split_ifs at h
    obtain ⟨server, hserver, h⟩ := Option.bind_eq_some_iff.mp h
    obtain rfl := Option.some.inj h
    exact .server hserver
  | leave =>
    simp only [step] at h
    split_ifs at h with hleave
    obtain rfl := Option.some.inj h
    exact .leave hleave.1 (by simpa using hleave.2)
  | clear =>
    simp only [step] at h
    split_ifs at h with hclear
    obtain rfl := Option.some.inj h
    exact .clear hclear.1 hclear.2

/-! ### What keeps the tasks -/

lemma startup_of_step {s t : Server} {a : ServerLabel} {b : Bool}
    (hreturned : s.startup = .returned b) (h : s.step a = some t) : t.startup = .returned b := by
  cases a with
  | startup calls =>
    simp only [Server.step, Server.stepStartup, hreturned] at h
    cases h
  | _ =>
    cases Server.ServerRule.of_step h <;> exact hreturned

lemma isAccepting_of_returned {s : Server} (h : s.startup = .returned true) :
    s.isAccepting = true := by
  rw [Server.isAccepting, h]
  rfl

lemma hasOutstanding_of_live {s : Server} (h : s.live = 1) : s.hasOutstanding = true := by
  rw [Server.hasOutstanding, Server.hasWork]
  cases haccepts : s.accepts with
  | cons op accepts => simp
  | nil =>
    rw [Server.live, haccepts, List.length_nil, Nat.zero_add] at h
    have hlive : s.connections.any Connection.isLive = true := by
      have hpos : 0 < s.connections.countP Connection.isLive := by omega
      obtain ⟨c, hc, hlive⟩ := List.countP_pos_iff.mp hpos
      exact List.any_eq_true.mpr ⟨c, hc, hlive⟩
    simp [hlive]

/-- A server that failed to start has nothing to do. -/
lemma hasOutstanding_of_failed {s : Server} (hs : s.Serving) (h : s.startup = .returned false) :
    s.hasOutstanding = false := by
  obtain ⟨haccepts, hconnections⟩ := hs.quiet (by rw [Server.isAccepting, h]; rfl)
  simp [Server.hasOutstanding, Server.hasWork, haccepts, hconnections]

/-- As long as every step is sound, the tasks stay, or the server has failed to start. -/
structure Manned (threadsCount : ℕ) (p : Pool) : Prop where
  serving : p.server.Serving
  accepts : p.server.AcceptsOne
  threads : p.stopped = false → p.server.threads = threadsCount
  stopped : p.stopped = true → p.server.startup = .returned false
  cleared : p.cleared = true → p.server.startup = .returned false

lemma manned_init (threadsCount : ℕ) : Manned threadsCount (init threadsCount) where
  serving := Server.serving_init threadsCount
  accepts := fun h => by cases h
  threads := fun _ => Nat.zero_add threadsCount
  stopped := fun h => by cases h
  cleared := fun h => by cases h

lemma isReturned_iff {statement : StartupStatement} :
    statement.isReturned = true ↔ ∃ b, statement = .returned b := by
  cases statement <;> simp [StartupStatement.isReturned]

lemma Manned.step {threadsCount : ℕ} {p q : Pool} {a : PoolLabel} (hn : 0 < threadsCount)
    (hp : Manned threadsCount p) (ha : p.sound a = true) (h : p.step a = some q) :
    Manned threadsCount q := by
  cases PoolRule.of_step h with
  | @server a server hserver =>
    simp only [sound, Bool.and_eq_true, Bool.not_eq_true'] at ha
    obtain ⟨⟨hheard, hknown⟩, hescapes⟩ := ha
    refine ⟨hp.serving.step hserver, ?_, fun hstopped => ?_, fun hstopped => ?_, fun hcleared => ?_⟩
    · exact (Server.acceptsOne_step_iff hp.serving hp.accepts hknown hserver).mpr hheard
    · rcases Server.threads_of_step hp.serving hserver with ⟨_, hthreads⟩ | ⟨hescapes', _⟩
      · exact hthreads.trans (hp.threads hstopped)
      · rw [hescapes] at hescapes'
        cases hescapes'
    · exact startup_of_step (hp.stopped hstopped) hserver
    · exact startup_of_step (hp.cleared hcleared) hserver
  | leave hpos hout =>
    have hfailed : p.server.startup = .returned false := by
      rcases hout with hstopped | ⟨hreturned, hidle⟩
      · exact hp.stopped hstopped
      · obtain ⟨b, hb⟩ := isReturned_iff.mp hreturned
        cases b with
        | false => exact hb
        | true =>
          have hlive := hp.accepts (isAccepting_of_returned hb)
          rw [hasOutstanding_of_live hlive] at hidle
          cases hidle
    exact ⟨⟨hp.serving.listening, hp.serving.quiet⟩, hp.accepts, fun h => (by cases h),
      fun _ => hfailed, fun _ => hfailed⟩
  | clear hreturned hzero =>
    refine ⟨hp.serving, hp.accepts, hp.threads, hp.stopped, fun _ => ?_⟩
    obtain ⟨b, hb⟩ := isReturned_iff.mp hreturned
    cases b with
    | false => exact hb
    | true =>
      -- nobody has left, so there are tasks
      have hrunning : p.stopped = false := by
        by_contra hstopped
        rw [hp.stopped (by simpa using hstopped)] at hb
        cases hb
      have hthreads := hp.threads hrunning
      rw [Server.threads, hb, hzero] at hthreads
      simp only [StartupStatement.left] at hthreads
      omega

lemma Manned.run {threadsCount : ℕ} {p q : Pool} {as : List PoolLabel} (hn : 0 < threadsCount)
    (hp : Manned threadsCount p)
    (has : Core.EveryStep Pool.step (fun p a => p.sound a = true) p as)
    (hrun : Core.run Pool.step p as = some q) : Manned threadsCount q :=
  Core.run_invariant_of_everyStep (fun _ _ _ hp ha h => hp.step hn ha h) hp has hrun

/-! ### Clearing the pool -/

/-- All tasks of a server that failed to start can leave. -/
lemma exists_clear {p : Pool} (hs : p.server.Serving) (h : p.server.startup = .returned false) :
    ∃ as q, Core.run step p as = some q ∧
      Core.EveryStep step (fun p a => p.sound a = true) p as ∧ q.cleared = true := by
  induction hthreads : p.server.poolThreads generalizing p with
  | zero =>
    have hclear : p.step .clear = some { p with cleared := true } := by
      rw [step, if_pos]
      exact ⟨by rw [h]; rfl, hthreads⟩
    refine ⟨[.clear], { p with cleared := true }, ?_, ⟨rfl, fun _ _ => trivial⟩, rfl⟩
    exact Core.run_cons_eq_some.mpr ⟨_, hclear, rfl⟩
  | succ n ih =>
    have hleave : p.step .leave = some { p with
        server := { p.server with poolThreads := p.server.poolThreads - 1 }
        stopped := true } := by
      rw [step, if_pos]
      refine ⟨by omega, Or.inr ⟨by rw [h]; rfl, ?_⟩⟩
      simp [hasOutstanding_of_failed hs h]
    obtain ⟨as, q, hrun, has, hcleared⟩ := ih (p := { p with
        server := { p.server with poolThreads := p.server.poolThreads - 1 }
        stopped := true }) ⟨hs.listening, hs.quiet⟩ h (by simp [hthreads])
    refine ⟨.leave :: as, q, ?_, ⟨rfl, fun t ht => ?_⟩, hcleared⟩
    · exact Core.run_cons_eq_some.mpr ⟨_, hleave, hrun⟩
    · obtain rfl := Option.some.inj (hleave.symm.trans ht)
      exact has

lemma startup_of_run {p q : Pool} {as : List PoolLabel} {b : Bool}
    (hreturned : p.server.startup = .returned b) (hrun : Core.run step p as = some q) :
    q.server.startup = .returned b := by
  apply Core.run_invariant (I := fun p : Pool => p.server.startup = .returned b) _ hreturned hrun
  intro p a q hp h
  cases PoolRule.of_step h with
  | server hserver => exact startup_of_step hp hserver
  | leave _ _ => exact hp
  | clear _ _ => exact hp

/-- With at least one thread, after `Startup` has returned, and as long as every accept that completes
is a connection that is heard and no exception ends a task, `~Application` can get past
`thread_pool_.clear()` if and only if the server failed to start. -/
theorem clears_iff_failed {threadsCount : ℕ} {as : List PoolLabel} {p : Pool} {b : Bool}
    (hn : 0 < threadsCount) (hrun : Core.run step (init threadsCount) as = some p)
    (has : Core.EveryStep step (fun p a => p.sound a = true) (init threadsCount) as)
    (hreturned : p.server.startup = .returned b) :
    (∃ bs q, Core.run step p bs = some q ∧
      Core.EveryStep step (fun p a => p.sound a = true) p bs ∧ q.cleared = true) ↔ b = false := by
  have hp := (manned_init threadsCount).run hn has hrun
  constructor
  · rintro ⟨bs, q, hbs, hsound, hcleared⟩
    have hfailed := (hp.run hn hsound hbs).cleared hcleared
    have hsame := startup_of_run hreturned hbs
    rw [hfailed] at hsame
    exact (StartupStatement.returned.inj hsame).symm
  · rintro rfl
    exact exists_clear hp.serving hreturned

/-- A server that cannot bind its port. -/
theorem clears_iff_failed_bind :
    ∃ p, Core.run step (init 2) (List.replicate 5 (.server (.startup ⟨false, true, false⟩))) =
        some p ∧ p.server.startup = .returned false ∧
      ((∃ bs q, Core.run step p bs = some q ∧
        Core.EveryStep step (fun p a => p.sound a = true) p bs ∧ q.cleared = true) ↔
          false = false) :=
  ⟨_, rfl, rfl, @clears_iff_failed 2 (List.replicate 5 (.server (.startup ⟨false, true, false⟩)))
    _ false (by decide) rfl (by decide) rfl⟩

end Pool

end EzServer.Application
