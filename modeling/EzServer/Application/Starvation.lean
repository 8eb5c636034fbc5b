import EzServer.Net.Delivery
import EzServer.Application.Strands

/-!
# Clients that wait

A client can be kept waiting by the handlers of other clients, which occupy the threads of the pool
and the implementation of its strand, and by nothing else: as long as a thread and the implementation
are left for it, its own steps are enough to deliver everything that its peer sends, whatever all the
others are in the middle of.
-/

namespace EzServer.Application

open Net Net.AsyncTcpClient Core.Framing

namespace Session

/-- The send transfers its buffer, so that its `HandleWrite` does nothing, whenever it is run. -/
def wholeSend (c : AsyncTcpClient) : Label → Bool
  | .send sent _ => c.sends.head?.all fun op => sent == op.expected
  | _ => true

/-- No error, no `Stop` and no exception, and every read and every send is whole. -/
def undisturbed (s : Session) : SessionLabel → Bool
  | .client a => s.client.quiet a && s.client.wholeRead a && wholeSend s.client a
  | _ => false

/-- A peer that sends whole requests is served on track. -/
lemma whole_of_step {fs : List RequestFrame} {s s' : Session} {l : SessionLabel}
    (hs : Whole fs s.client) (hl : s.undisturbed l = true) (h : s.step l = some s') :
    Whole fs s'.client := by
  cases SessionRule.of_step h with
  | returned hclient _ =>
    rw [undisturbed, Bool.and_eq_true, Bool.and_eq_true] at hl
    exact hs.step hl.1.1 hl.1.2 hclient
  | client _ hclient =>
    rw [undisturbed, Bool.and_eq_true, Bool.and_eq_true] at hl
    exact hs.step hl.1.1 hl.1.2 hclient
  | closed _ _ => cases hl
  | commandThrew _ => cases hl

lemma step_advance {s : Session} {client : AsyncTcpClient} {a : Label}
    (ha : ∀ i, a ≠ .read i .closeReturned) (h : s.client.step a = some client) :
    s.step (.client a) = some (s.advance client) := by
  unfold step
  split
  · next i heq => exact absurd (SessionLabel.client.inj heq) (ha i)
  · next a' _ heq =>
    obtain rfl := SessionLabel.client.inj heq
    rw [h]
    rfl
  · next heq => cases heq
  · next heq => cases heq

end Session

/-- The step of the `k`-th session that a step of the pool is. -/
def PoolLabel.toSession (k : ℕ) : PoolLabel → Option SessionLabel
  | .server a => sessionLabel k a
  | _ => none

/-- The step of the `k`-th session that a step of the strands is. -/
def StrandsLabel.toSession (k : ℕ) : StrandsLabel → Option SessionLabel
  | .pool a => a.toSession k
  | .wait _ => none

namespace Pool

/-- The `k`-th session is a projection of the pool. -/
lemma projection (k : ℕ) :
    Core.Projection stepOnThreads Session.step (fun p => p.server.sessionAt k)
      (PoolLabel.toSession k) (fun p => p.server.Untouched) Session.IsAccepted where
  keeps := fun _ _ _ hp h => untouched_of_step hp h
  follows := by
    intro p a q s hp h hs
    cases OnThreadsRule.of_step h with
    | server hserver _ => exact (Server.projection k).follows _ _ _ s hp hserver hs
    | leave _ => exact ⟨s, rfl, hs⟩
    | clear => exact ⟨s, rfl, hs⟩
  enters := by
    intro p a q hp h hnot
    cases OnThreadsRule.of_step h with
    | server hserver _ => exact (Server.projection k).enters _ _ _ hp hserver hnot
    | leave _ =>
      refine ⟨rfl, fun s hs => ?_⟩
      cases hnot.symm.trans hs
    | clear =>
      refine ⟨rfl, fun s hs => ?_⟩
      cases hnot.symm.trans hs

end Pool

namespace Strands

variable {strandOf : ℕ → ℕ}

/-- The step does not disturb the `k`-th client. -/
def undisturbed (k : ℕ) (p : Strands) (a : StrandsLabel) : Bool :=
  (a.toSession k).all fun l => (p.pool.server.sessionAt k).all fun s => s.undisturbed l

/-- The `k`-th session is a projection of the server with its strands. -/
lemma projection (k : ℕ) :
    Core.Projection (step strandOf) Session.step (fun p => p.pool.server.sessionAt k)
      (StrandsLabel.toSession k) (fun p => p.pool.server.Untouched) Session.IsAccepted where
  keeps := fun _ _ _ hp h => invariant_of_pool (fun _ _ _ hp h => Pool.untouched_of_step hp h) hp h
  follows := by
    intro p a q s hp h hs
    cases StrandsRule.of_step h with
    | handler _ hpool _ => exact (Pool.projection k).follows _ _ _ s hp hpool hs
    | other _ hpool => exact (Pool.projection k).follows _ _ _ s hp hpool hs
    | wait _ => exact ⟨s, rfl, hs⟩
  enters := by
    intro p a q hp h hnot
    cases StrandsRule.of_step h with
    | handler _ hpool _ => exact (Pool.projection k).enters _ _ _ hp hpool hnot
    | other _ hpool => exact (Pool.projection k).enters _ _ _ hp hpool hnot
    | wait _ =>
      refine ⟨rfl, fun s hs => ?_⟩
      cases hnot.symm.trans hs

/-- As long as nothing disturbs a client whose peer sends whole requests, it is on track. -/
lemma whole_of_run {threadsCount : ℕ} {as : List StrandsLabel} {p : Strands} {k : ℕ}
    {fs : List RequestFrame} {session : Session}
    (hrun : Core.run (step strandOf) (init threadsCount) as = some p)
    (hundisturbed : Core.EveryStep (step strandOf) (fun q a => q.undisturbed k a = true)
      (init threadsCount) as)
    (hsession : p.pool.server.sessionAt k = some session)
    (hstream : session.client.stream = encodeAll fs) : Whole fs session.client := by
  refine (projection k).invariant
    (I := fun s => s.client.stream = encodeAll fs → Whole fs s.client)
    (H := fun s l => s.undisturbed l = true) ?_ ?_ ?_ (Server.untouched_init threadsCount) ?_
    hundisturbed hrun session hsession hstream
  · rintro s ⟨id, socket, rfl⟩ rfl
    exact whole_connected fs
  · intro s l t hs hl h hstream
    exact Session.whole_of_step (hs ((Session.stream_of_step h).symm.trans hstream)) hl h
  · intro q a s l hq hs hl
    rw [undisturbed, hl, hs] at hq
    exact hq
  · intro s hs
    cases hs

/-! ### Steps of one client -/

/-- A step that a client takes by itself or with its peer. -/
def IsOwn (k : ℕ) (a : StrandsLabel) : Prop :=
  ∃ l, a = .pool (.server (.session k (.client l)))

/-- Steps of the client alone can hand it all of the requests. -/
def Deliverable (strandOf : ℕ → ℕ) (fs : List RequestFrame) (k : ℕ) (p : Strands) : Prop :=
  ∃ ls q session, (∀ l ∈ ls, IsOwn k l) ∧ Core.run (step strandOf) p ls = some q ∧
    q.pool.server.sessionAt k = some session ∧ messages session.client.events = bodies fs

/-- What a step of the client does to the pool. -/
lemma exists_pool_step {p : Pool} {k : ℕ} {c : Connection} {client : AsyncTcpClient} {a : Label}
    (hc : p.server.connections[k]? = some c) (hstarted : c.accepting ≠ .start)
    (ha : ∀ i, a ≠ .read i .closeReturned) (hclient : c.session.client.step a = some client)
    (hfree : (SessionLabel.client a).isCompletion = true →
      p.stopped = false ∧ p.server.running < p.server.poolThreads) :
    p.stepOnThreads (.server (.session k (.client a))) = some { p with
      server := p.server.put k { c with session := c.session.advance client } } := by
  have hserver : p.server.step (.session k (.client a)) =
      some (p.server.put k { c with session := c.session.advance client }) := by
    rw [Server.step, hc]
    show p.server.stepSession k c (.client a) = _
    rw [Server.stepSession, if_neg, Session.step_advance ha hclient]
    · cases c.session.closing with
      | none => rfl
      | some statement => cases statement <;> rfl
    · cases hcompletion : (SessionLabel.client a).isCompletion with
      | false => simp [hstarted]
      | true =>
        have hpos : p.server.poolThreads ≠ 0 := by
          have hlt := (hfree hcompletion).2
          omega
        simp [hstarted, hpos]
  have htakes : p.server.takesUp (.session k (.client a)) = (SessionLabel.client a).isCompletion :=
    rfl
  cases hcompletion : (SessionLabel.client a).isCompletion with
  | false => simp [Pool.stepOnThreads, Pool.step, htakes, hcompletion, hserver]
  | true =>
    obtain ⟨hstopped, hlt⟩ := hfree hcompletion
    simp [Pool.stepOnThreads, Pool.step, htakes, hcompletion, hserver, hstopped, not_le.mpr hlt]

/-- What a step of the client does to the implementation of its strand. -/
lemma exists_own_step {p : Strands} {k : ℕ} {pool : Pool} {l : SessionLabel}
    (hpool : p.pool.stepOnThreads (.server (.session k l)) = some pool)
    (hadmits : p.admits strandOf k = true) :
    ∃ waiting, p.step strandOf (.pool (.server (.session k l))) = some ⟨pool, waiting⟩ ∧
      ∀ j ∈ waiting (strandOf k), j ∈ p.waiting (strandOf k) := by
  cases hcompletion : l.isCompletion with
  | false =>
    have hhandler : (PoolLabel.server (.session k l)).handlerOf = none := by
      simp [PoolLabel.handlerOf, hcompletion]
    refine ⟨p.waiting, ?_, fun _ hj => hj⟩
    simp [step, hpool, hhandler]
  | true =>
    have hhandler : (PoolLabel.server (.session k l)).handlerOf = some k := if_pos hcompletion
    refine ⟨Function.update p.waiting (strandOf k) (p.waiting (strandOf k)).tail, ?_, ?_⟩
    · simp [step, hpool, hhandler, hadmits]
    · rw [Function.update_self]
      exact fun j hj => List.mem_of_mem_tail hj

/-- A step of one client leaves the handlers of the others as they are. -/
lemma heldByOther_of_set {s t : Server} {k : ℕ} {d : Connection}
    (ht : t.connections = s.connections.set k d) :
    t.heldByOther strandOf k = s.heldByOther strandOf k := by
  have hothers : ∀ j, j ≠ k → t.handles j = s.handles j := by
    intro j hj
    rw [Server.handles, Server.handles, Server.sessionAt, ht, List.getElem?_set_ne hj.symm]
    rfl
  have key : t.heldByOther strandOf k = false ↔ s.heldByOther strandOf k = false := by
    rw [Server.heldByOther_eq_false_iff, Server.heldByOther_eq_false_iff]
    refine forall_congr' fun j => forall_congr' fun hj => ?_
    rw [hothers j hj]
  cases hs : s.heldByOther strandOf k with
  | false => exact key.mpr hs
  | true => exact Bool.of_not_eq_false fun ht => by cases hs.symm.trans (key.mp ht)

/-- The client is on track, and neither a thread nor the implementation of its strand is kept from
it by others. -/
structure OnItsOwn (strandOf : ℕ → ℕ) (fs : List RequestFrame) (k : ℕ) (p : Strands)
    (c : Connection) : Prop where
  connection : p.pool.server.connections[k]? = some c
  started : c.accepting ≠ .start
  whole : Whole fs c.session.client
  stopped : p.pool.stopped = false
  thread : p.pool.server.running < p.pool.server.poolThreads + c.session.isHandling.toNat
  unheld : p.pool.server.heldByOther strandOf k = false
  waiting : ∀ j ∈ p.waiting (strandOf k), j = k

lemma OnItsOwn.admits {fs : List RequestFrame} {k : ℕ} {p : Strands} {c : Connection}
    (hp : OnItsOwn strandOf fs k p c) : p.admits strandOf k = true := by
  rw [Strands.admits, hp.unheld, Bool.not_false, Bool.true_and]
  cases hwaiting : p.waiting (strandOf k) with
  | nil => rfl
  | cons j rest => exact beq_iff_eq.mpr (hp.waiting j (by simp [hwaiting]))

/-- What a handler is taken up from. -/
lemma isHandling_of_completion {s : Session} {client : AsyncTcpClient} {a : Label}
    (hs : OneChain s.client) (h : s.client.step a = some client)
    (ha : (SessionLabel.client a).isCompletion = true) : s.isHandling = false := by
  have hfree : s.client.strandFree = true := by
    by_cases hread : ∃ i l, a = .read i l
    · obtain ⟨i, l, rfl⟩ := hread
      obtain ⟨op, c₁, ops, hreads, hrule, rfl⟩ := ReadRule.of_step hs.length_le h
      cases hrule <;> first | assumption | cases ha
    · cases a with
      | handleWrite i =>
        obtain ⟨w, -, h⟩ := Option.bind_eq_some_iff.mp h
        split_ifs at h with hfree
        exact hfree
      | read i l => exact absurd ⟨i, l, rfl⟩ hread
      | _ => cases ha
  rw [Session.isHandling, hfree]
  rfl

lemma OnItsOwn.step {fs : List RequestFrame} {k : ℕ} {p : Strands} {c : Connection}
    {client : AsyncTcpClient} {a : Label} (hp : OnItsOwn strandOf fs k p c)
    (ha : ∀ i, a ≠ .read i .closeReturned) (hquiet : c.session.client.quiet a = true)
    (hwhole : c.session.client.wholeRead a = true)
    (hclient : c.session.client.step a = some client) :
    ∃ q, p.step strandOf (.pool (.server (.session k (.client a)))) = some q ∧
      OnItsOwn strandOf fs k q { c with session := c.session.advance client } := by
  have hpool := exists_pool_step hp.connection hp.started ha hclient fun hcompletion => by
    have hthread := hp.thread
    rw [isHandling_of_completion hp.whole.framed.chain hclient hcompletion] at hthread
    exact ⟨hp.stopped, hthread⟩
  obtain ⟨waiting, hstep, hwaiting⟩ := exists_own_step hpool hp.admits
  refine ⟨_, hstep, ?_⟩
  have hsum := Core.sum_map_set Connection.running hp.connection
    { c with session := c.session.advance client }
  refine ⟨?_, hp.started, hp.whole.step hquiet hwhole hclient, hp.stopped, ?_,
    (heldByOther_of_set rfl).trans hp.unheld, fun j hj => hp.waiting j (hwaiting j hj)⟩
  · exact List.getElem?_set_self (List.getElem?_eq_some_iff.mp hp.connection).1
  · have hthread := hp.thread
    simp only [Server.running, Server.put, Connection.running, Connection.isLive] at hsum hthread ⊢
    omega

lemma OnItsOwn.sessionAt_eq {fs : List RequestFrame} {k : ℕ} {p : Strands} {c : Connection}
    (hp : OnItsOwn strandOf fs k p c) : p.pool.server.sessionAt k = some c.session := by
  rw [Server.sessionAt_eq hp.connection, Connection.started, if_neg hp.started]

/-- A client on track has been handed everything once its chain has come to its close event. -/
lemma messages_of_closing {fs : List RequestFrame} {c : AsyncTcpClient} (hc : Whole fs c)
    (hreads : ∀ op ∈ c.reads, op.isClosing = true) : messages c.events = bodies fs := by
  cases hops : c.reads with
  | nil => exact (hc.ended hops).messages
  | cons op ops =>
    have hmem : op ∈ c.reads := by simp [hops]
    have htrack := hc.onTrack op hmem
    have hclosing := hreads op hmem
    cases op with
    | raisingConnectionClosed err => exact Finished.messages htrack
    | _ => cases hclosing

/-- With a thread and its strand left for it, a client on track can be handed everything that its
peer sends. -/
lemma OnItsOwn.deliverable {fs : List RequestFrame} {k : ℕ} {p : Strands} {c : Connection}
    (hp : OnItsOwn strandOf fs k p c) : Deliverable strandOf fs k p := by
  -- every step of the chain takes the client nearer to the end of the stream
  induction hrank : c.session.client.rank using Nat.strong_induction_on generalizing p c with
  | h rank ih =>
    by_cases hclosing : ∀ op ∈ c.session.client.reads, op.isClosing = true
    · exact ⟨[], p, c.session, by simp, rfl, hp.sessionAt_eq, messages_of_closing hp.whole hclosing⟩
    · obtain ⟨op, hop, hgoes⟩ : ∃ op ∈ c.session.client.reads, op.isClosing = false := by
        simpa using hclosing
      have hlength := hp.whole.framed.chain.length_le
      obtain ⟨op', hreads⟩ := List.length_eq_one_iff.mp
        (le_antisymm hlength (List.length_pos_of_mem hop))
      obtain rfl : op = op' := by simpa [hreads] using hop
      obtain ⟨a, hread, hquiet, hwhole, ha, hsome⟩ := hp.whole.progress hreads hgoes
      obtain ⟨client, hclient⟩ := Option.isSome_iff_exists.mp hsome
      obtain ⟨q, hq, hown⟩ := hp.step ha hquiet hwhole hclient
      have hnear := hp.whole.toLive.rank_step hquiet hclient
      rw [hread, if_pos rfl, hrank] at hnear
      obtain ⟨ls, q', session, hls, hrun, hsession, hmessages⟩ :=
        ih _ (by show client.rank < rank; omega) hown rfl
      refine ⟨_ :: ls, q', session, ?_, Core.run_cons_eq_some.mpr ⟨q, hq, hrun⟩, hsession,
        hmessages⟩
      exact List.forall_mem_cons.mpr ⟨⟨a, rfl⟩, hls⟩

/-! ### Waiting -/

/-- The client has been handed what is in `events`, and there is no thread for it, or its strand is
held by the handler of another client. -/
structure Waits (strandOf : ℕ → ℕ) (events : List Event) (k : ℕ) (p : Strands) : Prop where
  held : p.pool.server.AllHeld
  waiting : ∃ c, p.pool.server.connections[k]? = some c ∧ c.accepting ≠ .start ∧
    c.session.client.events = events ∧
    (p.pool.stopped = true ∨
      p.pool.server.poolThreads + c.session.isHandling.toNat ≤ p.pool.server.running ∨
      p.pool.server.heldByOther strandOf k = true)

/-- What a step of the client leaves of the other handlers. -/
lemma running_of_own {s t : Server} {k : ℕ} {c : Connection} {l : Label}
    (hc : s.connections[k]? = some c) (h : s.step (.session k (.client l)) = some t) :
    ∃ session, c.session.step (.client l) = some session ∧
      t.connections = s.connections.set k { c with session := session } ∧
      t.poolThreads = s.poolThreads ∧
      t.running + c.session.isHandling.toNat = s.running + session.isHandling.toNat := by
  obtain ⟨c', hc', h⟩ := Server.step_session_eq_some h
  obtain rfl := Option.some.inj (hc.symm.trans hc')
  have hpool : t.poolThreads = s.poolThreads := (Server.takesThread_stepSession h).2
  cases Server.ServerRule.of_stepSession hc h with
  | @session _ c' session _ poolThreads hc' hsession _ =>
    obtain rfl := Option.some.inj (hc.symm.trans hc')
    refine ⟨session, hsession, rfl, hpool, ?_⟩
    have hsum := Core.sum_map_set Connection.running hc { c with session := session }
    simp only [Server.running, Server.put, Connection.running, Connection.isLive] at hsum ⊢
    omega

/-- A client that waits takes up no completion. -/
lemma Waits.isCompletion_eq_false {events : List Event} {k : ℕ} {p q : Strands} {l : Label}
    (hp : Waits strandOf events k p)
    (h : p.step strandOf (.pool (.server (.session k (.client l)))) = some q) :
    (SessionLabel.client l).isCompletion = false := by
  by_contra hnot
  replace hnot := Bool.of_not_eq_false hnot
  have hhandler : (PoolLabel.server (.session k (.client l))).handlerOf = some k := if_pos hnot
  obtain ⟨-, c, hc, -, -, hwaits⟩ := hp
  cases StrandsRule.of_step h with
  | handler hk hpool hadmits =>
    obtain rfl := Option.some.inj (hhandler.symm.trans hk)
    cases Pool.OnThreadsRule.of_step hpool with
    | server _ hfree =>
      obtain ⟨hstopped, hlt⟩ := hfree hnot
      rcases hwaits with hwaits | hwaits | hwaits
      · cases hstopped.symm.trans hwaits
      · omega
      · rw [admits, hwaits] at hadmits
        cases hadmits
  | other hnone _ => cases hhandler.symm.trans hnone

lemma Waits.step {events : List Event} {k : ℕ} {p q : Strands} {a : StrandsLabel}
    (hp : Waits strandOf events k p) (ha : IsOwn k a) (h : p.step strandOf a = some q) :
    Waits strandOf events k q := by
  obtain ⟨l, rfl⟩ := ha
  have hcompletion := hp.isCompletion_eq_false h
  obtain ⟨hheld, c, hc, hstarted, hevents, hwaits⟩ := hp
  cases StrandsRule.of_step h with
  | handler hk _ _ =>
    rw [PoolLabel.handlerOf, hcompletion] at hk
    cases hk
  | other _ hpool =>
    cases Pool.OnThreadsRule.of_step hpool with
    | @server _ server hserver _ =>
      obtain ⟨session, hsession, hput, hthreads, hrunning⟩ := running_of_own hc hserver
      have hlinked := (hheld c (List.mem_of_getElem? hc)).toLinked
      have hsame := Session.events_of_step hlinked hsession hcompletion
      refine ⟨hheld.step hserver, { c with session := session }, ?_, hstarted,
        hsame.trans hevents, ?_⟩
      · show server.connections[k]? = _
        rw [hput, List.getElem?_set_self (List.getElem?_eq_some_iff.mp hc).1]
      · refine hwaits.imp_right (Or.imp (fun hfull => ?_) (heldByOther_of_set hput).trans)
        show server.poolThreads + session.isHandling.toNat ≤ server.running
        omega

lemma Waits.run {events : List Event} {k : ℕ} {p q : Strands} {ls : List StrandsLabel}
    (hp : Waits strandOf events k p) (hls : ∀ l ∈ ls, IsOwn k l)
    (hrun : Core.run (Strands.step strandOf) p ls = some q) : Waits strandOf events k q := by
  induction ls generalizing p with
  | nil =>
    obtain rfl := Option.some.inj hrun
    exact hp
  | cons l ls ih =>
    obtain ⟨hl, hrest⟩ := List.forall_mem_cons.mp hls
    obtain ⟨u, hu, hrun⟩ := Core.run_cons_eq_some.mp hrun
    exact ih (hp.step hl hu) hrest hrun

/-! ### Runs -/

/-- In every run that has not disturbed a client whose peer sends whole requests, with no other
client in line for the implementation of its strand, the client can be handed all requests by steps
of its own if and only if it has been already, or a thread of the pool runs no handler but its own
and no handler of another client runs on the implementation: nothing else that the server is in the
middle of can keep it waiting. -/
theorem deliverable_iff {threadsCount : ℕ} {as : List StrandsLabel} {p : Strands} {k : ℕ}
    {fs : List RequestFrame} {session : Session}
    (hrun : Core.run (step strandOf) (init threadsCount) as = some p)
    (hundisturbed : Core.EveryStep (step strandOf) (fun q a => q.undisturbed k a = true)
      (init threadsCount) as)
    (hsession : p.pool.server.sessionAt k = some session)
    (hstream : session.client.stream = encodeAll fs)
    (hline : ∀ j ∈ p.waiting (strandOf k), j = k) :
    Deliverable strandOf fs k p ↔ messages session.client.events = bodies fs ∨
      p.pool.stopped = false ∧
        p.pool.server.running < p.pool.server.poolThreads + session.isHandling.toNat ∧
        p.pool.server.heldByOther strandOf k = false := by
  obtain ⟨c, hc, hstarted⟩ := Option.bind_eq_some_iff.mp hsession
  rw [Connection.started] at hstarted
  split_ifs at hstarted with hat
  obtain rfl := Option.some.inj hstarted
  have hwhole := whole_of_run hrun hundisturbed hsession hstream
  have hp : p.pool.server.Occupied := (sound_of_run hrun).occupied
  constructor
  · rintro ⟨ls, q, session', hls, hrun', hsession', hmessages⟩
    by_contra hnot
    rw [not_or, not_and_or, not_and_or] at hnot
    obtain ⟨hmissing, hwaits⟩ := hnot
    have hwaits : Waits strandOf c.session.client.events k p :=
      ⟨hp.held, c, hc, hat, rfl,
        hwaits.imp Bool.of_not_eq_false (Or.imp not_lt.mp Bool.of_not_eq_false)⟩
    obtain ⟨-, c', hc', hat', hevents, -⟩ := hwaits.run hls hrun'
    rw [Server.sessionAt_eq hc', Connection.started, if_neg hat'] at hsession'
    obtain rfl := Option.some.inj hsession'
    rw [hevents] at hmessages
    exact hmissing hmessages
  · rintro (hmessages | ⟨hstopped, hthread, hunheld⟩)
    · exact ⟨[], p, c.session, by simp, rfl, hsession, hmessages⟩
    · exact OnItsOwn.deliverable ⟨hc, hat, hwhole, hstopped, hthread, hunheld, hline⟩

/-- Two clients are accepted by two threads, and the request of the first is being handled. -/
def busyRun : List StrandsLabel :=
  (List.replicate 7 (.startup ⟨false, false, false⟩) ++ [
    .complete 0 (.ok oneByteRequest.encode), .handle 0 false, .handle 0 false, .handle 0 false,
    .accepted 0, .accepted 0, .accepted 0,
    .complete 0 (.ok oneByteRequest.encode), .handle 0 false, .handle 0 false, .handle 0 false,
    .accepted 1, .accepted 1, .accepted 1,
    .session 0 (.client (.arrive 9)), .session 0 (.client (.read 0 (.receiveSome 8))),
    .session 0 (.client (.read 0 .headerHandler)), .session 0 (.client (.read 0 (.readSome 1))),
    .session 0 (.client (.read 0 .bodyHandler))] : List ServerLabel).map fun a => .pool (.server a)

/-- Where the strands of the two clients share an implementation, the second client waits although
there is a thread. -/
theorem deliverable_iff_busy :
    let strandOf : ℕ → ℕ := fun _ => 0
    ∃ p session, (Core.run (step strandOf) (init 2) busyRun = some p ∧
        p.pool.server.sessionAt 1 = some session ∧
        p.pool.server.running < p.pool.server.poolThreads) ∧
      (Deliverable strandOf [oneByteRequest] 1 p ↔
        messages session.client.events = bodies [oneByteRequest] ∨ p.pool.stopped = false ∧
          p.pool.server.running < p.pool.server.poolThreads + session.isHandling.toNat ∧
          p.pool.server.heldByOther strandOf 1 = false) ∧
      ¬ (messages session.client.events = bodies [oneByteRequest] ∨ p.pool.stopped = false ∧
          p.pool.server.running < p.pool.server.poolThreads + session.isHandling.toNat ∧
          p.pool.server.heldByOther strandOf 1 = false) :=
  ⟨_, _, ⟨rfl, rfl, by decide⟩,
    @deliverable_iff (fun _ => 0) 2 busyRun _ 1 [oneByteRequest] _ rfl (by decide) rfl rfl
      (fun j hj => by cases hj), by decide⟩

end Strands

end EzServer.Application
