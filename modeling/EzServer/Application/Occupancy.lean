import EzServer.Application.Handlers

/-!
# Handlers and threads

A completion handler has a thread of the pool to itself from the moment it is taken up until it
returns, and the thread is gone if it ends by an exception. So at most as many handlers run as there
are threads left, and when none is left no handler ever runs again.
-/

namespace EzServer.Application

open Net Net.AsyncTcpClient

namespace Server

/-! ### Threads -/

/-- No two handlers run on one thread. -/
structure Occupied (s : Server) : Prop where
  serving : s.Serving
  held : s.AllHeld
  running_le : s.running ≤ s.threads

lemma occupied_init (threadsCount : ℕ) : Occupied (init threadsCount) where
  serving := serving_init threadsCount
  held := by simp [AllHeld, init]
  running_le := Nat.zero_le _

/-- While handlers run all threads have been started. -/
lemma left_of_running {s : Server} (hs : s.Serving) (h : 0 < s.running) : s.startup.left = 0 := by
  apply left_of_isAccepting
  by_contra hnot
  obtain ⟨haccepts, hconnections⟩ := hs.quiet (by simpa using hnot)
  rw [running, haccepts, hconnections] at h
  cases h

lemma Occupied.running_le_poolThreads {s : Server} (hs : Occupied s) :
    s.running ≤ s.poolThreads := by
  have hle := hs.running_le
  rcases Nat.eq_zero_or_pos s.running with hzero | hpos
  · omega
  · rwa [threads, left_of_running hs.serving hpos] at hle

/-- What is taken up has not escaped yet. -/
lemma escapes_of_takesUp {s : Server} {a : ServerLabel} (h : s.takesUp a = true) :
    s.escapes a = false := by
  cases a with
  | handle i throws =>
    rw [takesUp] at h
    split at h
    · next hop =>
      rw [escapes, hop]
      rfl
    · cases h
  | session k l =>
    cases l with
    | client l =>
      rw [escapes]
      cases s.connections[k]? <;> rfl
    | _ => cases h
  | _ => rfl

/-- Each exception takes a thread away, and nothing else does. -/
lemma Occupied.threads_of_step {s t : Server} {a : ServerLabel} (hs : Occupied s)
    (h : s.step a = some t) : (s.escapes a).toNat + t.threads = s.threads := by
  rcases Server.threads_of_step hs.serving h with ⟨hescapes, heq⟩ | ⟨hescapes, hstartup, hpool⟩
  · rw [hescapes, heq]
    exact Nat.zero_add _
  · have htakes : s.takesUp a = false := by
      by_contra htakes
      rw [escapes_of_takesUp (by simpa using htakes)] at hescapes
      cases hescapes
    have hends : s.Occupies a t := .of_step hs.held h
    rw [Occupies, hescapes, htakes, Bool.toNat_true, Bool.toNat_false] at hends
    have hle := hs.running_le_poolThreads
    rw [hescapes, threads, threads, hstartup, hpool, Bool.toNat_true]
    omega

/-- Only a thread that runs no handler takes up a completion. -/
lemma Occupied.step {s t : Server} {a : ServerLabel} (hs : Occupied s) (h : s.step a = some t)
    (hfree : s.takesUp a = true → s.running < s.poolThreads) : Occupied t := by
  refine ⟨hs.serving.step h, hs.held.step h, ?_⟩
  have hthreads := hs.threads_of_step h
  have hends : s.Occupies a t := .of_step hs.held h
  have hle := hs.running_le
  rw [Occupies] at hends
  cases htakes : s.takesUp a with
  | false =>
    rw [htakes, Bool.toNat_false] at hends
    omega
  | true =>
    have hfree := hfree htakes
    rw [escapes_of_takesUp htakes] at hends hthreads
    rw [htakes, Bool.toNat_true, Bool.toNat_false] at hends
    rw [Bool.toNat_false] at hthreads
    have hpool : s.poolThreads ≤ s.threads := Nat.le_add_right _ _
    omega

/-! ### Without threads -/

lemma running_le_of_connection {s : Server} {k : ℕ} {c : Connection}
    (hc : s.connections[k]? = some c) : c.running ≤ s.running := by
  have hsum := Core.sum_map_eraseIdx Connection.running hc
  rw [running]
  omega

lemma running_le_of_accept {s : Server} {i : ℕ} {op : AcceptOp} (hop : s.accepts[i]? = some op) :
    op.running ≤ s.running := by
  have hsum := Core.sum_map_eraseIdx AcceptOp.running hop
  rw [running]
  omega

/-- What the clients have been told so far. -/
def eventsOf (s : Server) : List (List Event) := s.connections.map fun c => c.session.client.events

lemma eventsOf_put {s t : Server} {k : ℕ} {c d : Connection} (hc : s.connections[k]? = some c)
    (ht : t.connections = s.connections.set k d)
    (hd : d.session.client.events = c.session.client.events) : t.eventsOf = s.eventsOf := by
  obtain ⟨l, r, hsplit, hset⟩ := Core.exists_split_set hc
  rw [eventsOf, eventsOf, ht, hset d, hsplit, List.map_append, List.map_append, List.map_cons,
    List.map_cons, hd]

/-- As long as no handler is running or taken up, no client is told anything. -/
lemma silent_of_step {s t : Server} {a : ServerLabel} (hs : s.AllHeld) (h : s.step a = some t)
    (hidle : s.running = 0) (htakes : s.takesUp a = false) :
    t.clients = s.clients ∧ t.eventsOf = s.eventsOf := by
  have hreturned : ∀ {k : ℕ} {c : Connection}, s.connections[k]? = some c →
      c.accepting = .returned ∧ c.session.isHandling = false := by
    intro k c hc
    have hzero := running_le_of_connection hc
    rw [hidle, Connection.running, Connection.isLive] at hzero
    have hhandling : c.session.isHandling.toNat = 0 := by omega
    have hlive : (c.accepting != .returned).toNat = 0 := by omega
    exact ⟨by simpa using hlive, by simpa using hhandling⟩
  cases ServerRule.of_step h with
  | @created i throws socket hop =>
    have hzero := running_le_of_accept hop
    rw [hidle] at hzero
    cases hzero
  | started hc hat _ => cases hat.symm.trans (hreturned hc).1
  | emplaced hc hat => cases hat.symm.trans (hreturned hc).1
  | nextAccept hc hat _ => cases hat.symm.trans (hreturned hc).1
  | noAccept hc hat _ => cases hat.symm.trans (hreturned hc).1
  | @erased k c session throws err hc hclosing _ =>
    have hhandling := Session.isHandling_of_closing (hs c (List.mem_of_getElem? hc))
      (Session.isClosing_iff.mpr ⟨_, hclosing, by simp⟩)
    cases hhandling.symm.trans (hreturned hc).2
  | @session k c session l _ hc hsession _ =>
    have hlinked := (hs c (List.mem_of_getElem? hc)).toLinked
    exact ⟨rfl, eventsOf_put (d := { c with session := session }) hc rfl
      (Session.events_of_step hlinked hsession htakes)⟩
  | _ => exact ⟨rfl, rfl⟩

end Server

/-! ### The pool -/

namespace Pool

/-- A step of the pool where a completion is taken up by a thread that runs no handler, and such a
thread it is that leaves. -/
def stepOnThreads (p : Pool) : PoolLabel → Option Pool
  | .server a =>
    if p.server.takesUp a && decide (p.server.poolThreads ≤ p.server.running) then none
    else p.step (.server a)
  | .leave => if p.server.running < p.server.poolThreads then p.step .leave else none
  | .clear => p.step .clear

/-- The step takes a thread away: by an exception, or because there is no work. -/
def loses (p : Pool) : PoolLabel → Bool
  | .server a => p.server.escapes a
  | .leave => true
  | .clear => false

/-- The steps of a pool are steps of its server that take up a completion only with a free thread,
apart from the threads that leave. -/
inductive OnThreadsRule (p : Pool) : PoolLabel → Pool → Prop where
  | server {a : ServerLabel} {server : Server} (hserver : p.server.step a = some server)
      (hfree : p.server.takesUp a = true →
        p.stopped = false ∧ p.server.running < p.server.poolThreads) :
      OnThreadsRule p (.server a) { p with server := server }
  | leave (hfree : p.server.running < p.server.poolThreads) :
      OnThreadsRule p .leave { p with
        server := { p.server with poolThreads := p.server.poolThreads - 1 }
        stopped := true }
  | clear : OnThreadsRule p .clear { p with cleared := true }

lemma OnThreadsRule.of_step {p q : Pool} {a : PoolLabel} (h : p.stepOnThreads a = some q) :
    OnThreadsRule p a q := by
  cases a with
  | server a =>
    simp only [stepOnThreads] at h
    split_ifs at h with hgate
    cases PoolRule.of_step h with
    | server hserver =>
      refine .server hserver fun htakes => ⟨?_, by simpa [htakes] using hgate⟩
      by_contra hstopped
      rw [step, if_pos (by simpa [htakes] using hstopped)] at h
      cases h
  | leave =>
    simp only [stepOnThreads] at h
    split_ifs at h with hfree
    cases PoolRule.of_step h with
    | leave _ _ => exact .leave hfree
  | clear =>
    replace h : p.step .clear = some q := h
    cases PoolRule.of_step h with
    | clear _ _ => exact .clear

lemma occupied_of_step {p q : Pool} {a : PoolLabel} (hp : p.server.Occupied)
    (h : p.stepOnThreads a = some q) :
    q.server.Occupied ∧ (p.loses a).toNat + q.server.threads = p.server.threads := by
  cases OnThreadsRule.of_step h with
  | server hserver hfree =>
    exact ⟨hp.step hserver fun htakes => (hfree htakes).2, hp.threads_of_step hserver⟩
  | leave hfree =>
    refine ⟨⟨⟨hp.serving.listening, hp.serving.quiet⟩, hp.held, ?_⟩, ?_⟩
    · show p.server.running ≤ p.server.poolThreads - 1 + p.server.startup.left
      omega
    · show 1 + (p.server.poolThreads - 1 + p.server.startup.left) =
        p.server.poolThreads + p.server.startup.left
      omega
  | clear => exact ⟨hp, Nat.zero_add _⟩

/-- Without threads nobody is told anything. -/
lemma silent_of_step {p q : Pool} {a : PoolLabel} (hp : p.server.Occupied)
    (hzero : p.server.threads = 0) (h : p.stepOnThreads a = some q) :
    q.server.clients = p.server.clients ∧ q.server.eventsOf = p.server.eventsOf := by
  have hpool : p.server.poolThreads = 0 := by
    rw [Server.threads] at hzero
    omega
  cases OnThreadsRule.of_step h with
  | @server a server hserver hfree =>
    have htakes : p.server.takesUp a = false := by
      by_contra htakes
      have hlt := (hfree (by simpa using htakes)).2
      omega
    have hle := hp.running_le
    exact Server.silent_of_step hp.held hserver (by omega) htakes
  | leave hfree => omega
  | clear => exact ⟨rfl, rfl⟩

lemma silent_of_run {p q : Pool} {as : List PoolLabel} (hp : p.server.Occupied)
    (hzero : p.server.threads = 0) (hrun : Core.run stepOnThreads p as = some q) :
    q.server.clients = p.server.clients ∧ q.server.eventsOf = p.server.eventsOf := by
  have key : (q.server.Occupied ∧ q.server.threads = 0) ∧
      q.server.clients = p.server.clients ∧ q.server.eventsOf = p.server.eventsOf := by
    refine Core.run_invariant (I := fun u : Pool => (u.server.Occupied ∧ u.server.threads = 0) ∧
      u.server.clients = p.server.clients ∧ u.server.eventsOf = p.server.eventsOf) ?_
      ⟨⟨hp, hzero⟩, rfl, rfl⟩ hrun
    rintro u a v ⟨⟨hu, hzero⟩, hclients, hevents⟩ h
    obtain ⟨hv, hthreads⟩ := occupied_of_step hu h
    obtain ⟨hclients', hevents'⟩ := silent_of_step hu hzero h
    exact ⟨⟨hv, by omega⟩, hclients'.trans hclients, hevents'.trans hevents⟩
  exact key.2

/-! ### Runs -/

lemma occupied_of_run {threadsCount : ℕ} {as : List PoolLabel} {p : Pool}
    (hrun : Core.run stepOnThreads (init threadsCount) as = some p) : p.server.Occupied :=
  Core.run_invariant (I := fun u : Pool => u.server.Occupied)
    (fun _ _ _ hu h => (occupied_of_step hu h).1) (Server.occupied_init threadsCount) hrun

/-- There are never more handlers running than threads, and a thread is lost only by an exception or
when there is no work; once all `threads_count_` of them are lost, no client is accepted, forgotten
or told anything any more, whatever happens. -/
theorem silent_of_losses {threadsCount : ℕ} {as : List PoolLabel} {p : Pool}
    (hrun : Core.run stepOnThreads (init threadsCount) as = some p) :
    p.server.running ≤ p.server.poolThreads ∧
      Core.countSteps stepOnThreads loses (init threadsCount) as + p.server.threads =
        threadsCount ∧
      (Core.countSteps stepOnThreads loses (init threadsCount) as = threadsCount →
        ∀ bs q, Core.run stepOnThreads p bs = some q →
          q.server.clients = p.server.clients ∧ q.server.eventsOf = p.server.eventsOf) := by
  have hinv : ∀ u a v, Server.Occupied u.server → stepOnThreads u a = some v →
      Server.Occupied v.server := fun _ _ _ hu h => (occupied_of_step hu h).1
  have huse : ∀ u a v, Server.Occupied u.server → stepOnThreads u a = some v →
      (if loses u a then 1 else 0) + v.server.threads = u.server.threads := by
    intro u a v hu h
    have hthreads := (occupied_of_step hu h).2
    cases hloses : u.loses a <;> simpa [hloses] using hthreads
  have hp := occupied_of_run hrun
  have hcount := (Core.run_uses hinv huse (Server.occupied_init threadsCount) hrun).trans
    (Nat.zero_add threadsCount)
  refine ⟨hp.running_le_poolThreads, hcount, fun hall bs q hrun' => ?_⟩
  exact silent_of_run hp (by omega) hrun'

/-- The only thread is lost to a second peer that is gone before its endpoint is logged. The first
client is connected and is never told anything. -/
theorem silent_of_losses_one :
    let as : List PoolLabel := List.replicate 6 (.server (.startup ⟨false, false, false⟩)) ++ [
      .server (.complete 0 (.ok [65])), .server (.handle 0 false), .server (.handle 0 false),
      .server (.handle 0 false), .server (.accepted 0), .server (.accepted 0),
      .server (.accepted 0), .server (.complete 0 (.ok [])), .server (.handle 0 false),
      .server (.handle 0 true)]
    let lost := Core.countSteps stepOnThreads loses (init 1) as
    ∃ p, Core.run stepOnThreads (init 1) as = some p ∧ lost = 1 ∧ p.server.eventsOf = [[]] ∧
      p.server.running ≤ p.server.poolThreads ∧ lost + p.server.threads = 1 ∧ (lost = 1 → ∀ bs q,
        Core.run stepOnThreads p bs = some q →
          q.server.clients = p.server.clients ∧ q.server.eventsOf = p.server.eventsOf) :=
  ⟨_, rfl, rfl, rfl, @silent_of_losses 1 _ _ rfl⟩

end Pool

end EzServer.Application
