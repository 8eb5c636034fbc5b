import EzServer.Application.Isolation
import EzServer.Application.Occupancy
import Mathlib.Logic.Function.Basic

/-!
# Strands

The handlers of a client go through its `strand_`. The strands of all clients share a fixed number
of implementations, and an implementation runs one handler at a time: a completion that comes to one
in use waits behind those that came before it, whichever clients they are of. Which implementation a
strand has is up to `strandOf`; which of its completions a client in line is there with is left open.
-/

namespace EzServer.Application

open Net Net.AsyncTcpClient

/-- The completion of a read is queued. -/
def Session.isQueued : ReadOp → Bool
  | .headerReceived _ _ | .bodyRead _ _ _ => true
  | _ => false

/-- The completions of a client that have yet to be handled. -/
def Session.queued (c : AsyncTcpClient) : ℕ := c.reads.countP isQueued + c.writes.length

/-- The client whose completion is taken up. -/
def PoolLabel.handlerOf : PoolLabel → Option ℕ
  | .server (.session k l) => if l.isCompletion then some k else none
  | _ => none

namespace Server

/-- A completion handler of the `k`-th client is running. -/
def handles (s : Server) (k : ℕ) : Bool := (s.sessionAt k).any Session.isHandling

/-- The completions of the `k`-th client that have yet to be handled. -/
def queued (s : Server) (k : ℕ) : ℕ :=
  ((s.sessionAt k).map fun session => Session.queued session.client).getD 0

/-- A handler of another client runs on the implementation of the `k`-th client's strand. -/
def heldByOther (strandOf : ℕ → ℕ) (s : Server) (k : ℕ) : Bool :=
  (List.range s.connections.length).any fun j =>
    j != k && strandOf j == strandOf k && s.handles j

end Server

/-- The pool with the implementations of the strands. -/
structure Strands where
  pool : Pool
  /-- The clients whose completions wait for an implementation, in the order in which they came. -/
  waiting : ℕ → List ℕ

inductive StrandsLabel where
  | pool (a : PoolLabel)
  /-- A thread finds the strand in use when it comes with a completion of the `k`-th client. -/
  | wait (k : ℕ)

namespace Strands

def init (threadsCount : ℕ) : Strands where
  pool := .init threadsCount
  waiting := fun _ => []

/-- The implementation is free for a handler of the `k`-th client. -/
def admits (strandOf : ℕ → ℕ) (p : Strands) (k : ℕ) : Bool :=
  !p.pool.server.heldByOther strandOf k && (p.waiting (strandOf k)).head?.all (· == k)

/-- The implementation of the `k`-th client's strand has something to run. -/
def inUse (strandOf : ℕ → ℕ) (p : Strands) (k : ℕ) : Bool :=
  p.pool.server.handles k || p.pool.server.heldByOther strandOf k ||
    !(p.waiting (strandOf k)).isEmpty

/-- A step of the pool where every handler of a client is run by the implementation of its
strand. -/
def step (strandOf : ℕ → ℕ) (p : Strands) : StrandsLabel → Option Strands
  | .pool a => do
    let pool ← p.pool.stepOnThreads a
    match a.handlerOf with
    | none => return { p with pool := pool }
    | some k =>
      if p.admits strandOf k then
        return ⟨pool, Function.update p.waiting (strandOf k) (p.waiting (strandOf k)).tail⟩
      else none
  | .wait k =>
    if p.pool.stopped = false ∧ p.pool.server.running < p.pool.server.poolThreads ∧
        p.inUse strandOf k ∧ (p.waiting (strandOf k)).count k < p.pool.server.queued k then
      some { p with
        waiting := Function.update p.waiting (strandOf k) (p.waiting (strandOf k) ++ [k]) }
    else none

/-! ### Rules -/

variable {strandOf : ℕ → ℕ}

/-- The steps are those of a pool, apart from completions that are left to wait. -/
inductive StrandsRule (strandOf : ℕ → ℕ) (p : Strands) : StrandsLabel → Strands → Prop where
  | handler {a : PoolLabel} {k : ℕ} {pool : Pool} (ha : a.handlerOf = some k)
      (hpool : p.pool.stepOnThreads a = some pool) (hadmits : p.admits strandOf k = true) :
      StrandsRule strandOf p (.pool a)
        ⟨pool, Function.update p.waiting (strandOf k) (p.waiting (strandOf k)).tail⟩
  | other {a : PoolLabel} {pool : Pool} (ha : a.handlerOf = none)
      (hpool : p.pool.stepOnThreads a = some pool) :
      StrandsRule strandOf p (.pool a) { p with pool := pool }
  | wait {k : ℕ} (hqueued : (p.waiting (strandOf k)).count k < p.pool.server.queued k) :
      StrandsRule strandOf p (.wait k) { p with
        waiting := Function.update p.waiting (strandOf k) (p.waiting (strandOf k) ++ [k]) }

lemma StrandsRule.of_step {p q : Strands} {a : StrandsLabel} (h : p.step strandOf a = some q) :
    StrandsRule strandOf p a q := by
  cases a with
  | pool a =>
    simp only [step, Option.bind_eq_bind, Option.bind_eq_some_iff] at h
    obtain ⟨pool, hpool, h⟩ := h
    cases ha : a.handlerOf with
    | none =>
      rw [ha] at h
      obtain rfl := Option.some.inj h
      exact .other ha hpool
    | some k =>
      simp only [ha] at h
      split_ifs at h with hadmits
      obtain rfl := Option.some.inj h
      exact .handler ha hpool hadmits
  | wait k =>
    simp only [step] at h
    split_ifs at h with hwaits
    obtain rfl := Option.some.inj h
    exact .wait hwaits.2.2.2

/-- What is kept by every step of the pool is kept by every step. -/
lemma invariant_of_pool {I : Pool → Prop}
    (hI : ∀ p a q, I p → p.stepOnThreads a = some q → I q) {p q : Strands} {a : StrandsLabel}
    (hp : I p.pool) (h : p.step strandOf a = some q) : I q.pool := by
  cases StrandsRule.of_step h with
  | handler _ hpool _ => exact hI _ _ _ hp hpool
  | other _ hpool => exact hI _ _ _ hp hpool
  | wait _ => exact hp

end Strands

/-! ### Completions -/

namespace Session

/-- Only a handler takes the completion of a read out of the queue. -/
lemma isCompletion_of_isQueued {c c' : AsyncTcpClient} {i : ℕ} {l : ReadLabel} {op : ReadOp}
    {ops : List ReadOp} (h : ReadRule c l op c' ops) :
    c'.writes = c.writes ∧
      (isQueued op = true → (SessionLabel.client (.read i l)).isCompletion = true) := by
  cases h with
  | headerClosed | headerEmpty | headerBody | bodyClosed | bodyMessage => exact ⟨rfl, fun _ => rfl⟩
  | _ => exact ⟨rfl, fun hop => by cases hop⟩

lemma queued_stop (c : AsyncTcpClient) : queued (c.stop none).2 = queued c := by
  rw [stop_eq]
  rfl

lemma queued_of_client {c c' : AsyncTcpClient} {a : Label} (hc : OneChain c)
    (h : c.step a = some c') :
    queued c ≤ queued c' + (SessionLabel.client a).isCompletion.toNat := by
  cases a with
  | start =>
    obtain rfl := Option.some.inj h
    rw [start]
    split_ifs
    · exact le_rfl
    · simp only [queued, List.countP_append]
      omega
  | stop =>
    obtain rfl := Option.some.inj h
    exact (queued_stop c).ge
  | respond code message flags =>
    obtain rfl := Option.some.inj h
    exact le_rfl
  | arrive n =>
    simp only [AsyncTcpClient.step] at h
    split_ifs at h
    obtain rfl := Option.some.inj h
    exact le_rfl
  | read i l =>
    obtain ⟨op, c₁, ops, hreads, hrule, rfl⟩ := ReadRule.of_step hc.length_le h
    obtain ⟨hwrites, hcompletion⟩ := isCompletion_of_isQueued (i := i) hrule
    rw [queued, queued, hreads, List.countP_singleton]
    show _ + c.writes.length ≤ _ + c₁.writes.length + _
    rw [hwrites]
    split_ifs with hop
    · rw [hcompletion hop, Bool.toNat_true]
      omega
    · omega
  | overwrite i contents =>
    obtain ⟨op, -, rfl⟩ := overwrite_eq_some h
    exact le_rfl
  | send sent err =>
    simp only [AsyncTcpClient.step] at h
    split at h
    · cases h
    · split_ifs at h
      obtain rfl := Option.some.inj h
      simp only [queued, List.length_append, List.length_singleton]
      omega
  | handleWrite i =>
    simp only [AsyncTcpClient.step, Option.bind_eq_bind, Option.bind_eq_some_iff] at h
    obtain ⟨w, hw, h⟩ := h
    split_ifs at h
    obtain rfl := Option.some.inj h
    have herase : queued c = queued { c with writes := c.writes.eraseIdx i } + 1 := by
      have hlt := (List.getElem?_eq_some_iff.mp hw).1
      simp only [queued, List.length_eraseIdx_of_lt hlt]
      omega
    rw [handleWrite]
    split_ifs
    · rw [queued_stop]
      exact herase.le
    · exact herase.le

/-- A handler takes one completion out of the queue, and nothing else takes any. -/
lemma queued_of_step {s s' : Session} {l : SessionLabel} (hs : OneChain s.client)
    (h : s.step l = some s') :
    queued s.client ≤ queued s'.client + l.isCompletion.toNat := by
  cases SessionRule.of_step h with
  | returned hclient _ => exact queued_of_client hs hclient
  | client _ hclient => exact queued_of_client hs hclient
  | @closed throws statement _ _ hs' =>
    cases statement with
    | stop =>
      obtain rfl := Option.some.inj hs'
      exact (queued_stop s.client).ge
    | returned => cases hs'
    | _ =>
      obtain rfl := Option.some.inj hs'
      exact le_rfl
  | commandThrew hreads =>
    rw [queued, queued, hreads]
    exact le_rfl

end Session

/-! ### One handler at a time -/

lemma eq_session_of_sessionLabel {k : ℕ} {a : ServerLabel} {l : SessionLabel}
    (h : sessionLabel k a = some l) : a = .session k l := by
  cases a with
  | session j l' =>
    rw [sessionLabel] at h
    split_ifs at h with hjk
    rw [hjk, Option.some.inj h]
  | _ => cases h

namespace Server

lemma handles_of_connection {s : Server} {k : ℕ} {session : Session}
    (h : s.sessionAt k = some session) : s.handles k = session.isHandling := by
  rw [handles, h]
  rfl

lemma AllHeld.held {s : Server} (hs : s.AllHeld) {k : ℕ} {session : Session}
    (h : s.sessionAt k = some session) : session.Held := by
  obtain ⟨c, hc, hstarted⟩ := Option.bind_eq_some_iff.mp h
  rw [Connection.started] at hstarted
  split_ifs at hstarted
  obtain rfl := Option.some.inj hstarted
  exact hs c (List.mem_of_getElem? hc)

lemma heldByOther_eq_false_iff {strandOf : ℕ → ℕ} {s : Server} {k : ℕ} :
    s.heldByOther strandOf k = false ↔
      ∀ j, j ≠ k → strandOf j = strandOf k → s.handles j = false := by
  simp only [heldByOther, List.any_eq_false, List.mem_range, Bool.and_eq_true, bne_iff_ne,
    beq_iff_eq, not_and, Bool.not_eq_true]
  constructor
  · intro h j hjk hstrand
    by_cases hj : j < s.connections.length
    · exact h j hj ⟨hjk, hstrand⟩
    · rw [handles, sessionAt, List.getElem?_eq_none (not_lt.mp hj)]
      rfl
  · rintro h j - ⟨hjk, hstrand⟩
    exact h j hjk hstrand

/-- A handler runs after a step only if it ran before, or is taken up by it. -/
lemma handles_of_step {s t : Server} {a : ServerLabel} {k : ℕ} (hheld : s.AllHeld)
    (huntouched : s.Untouched) (h : s.step a = some t) (hk : t.handles k = true) :
    s.handles k = true ∨ ∃ l, a = .session k l ∧ l.isCompletion = true := by
  cases Seen.of_step (k := k) huntouched h with
  | unseen _ hview => exact Or.inl (by rwa [handles, hview] at hk)
  | started _ _ haccepted hview =>
    obtain ⟨id, socket, rfl⟩ := haccepted
    rw [handles_of_connection hview] at hk
    cases hk
  | @moved l p q hlabel hp hq hstep =>
    rw [handles_of_connection hq] at hk
    rw [handles_of_connection hp]
    have hle := Session.isHandling_of_step (hheld.held hp) hstep
    cases hcompletion : l.isCompletion with
    | false =>
      left
      by_contra hnot
      rw [hk, hcompletion, Bool.of_not_eq_true hnot, Bool.toNat_true, Bool.toNat_false] at hle
      omega
    | true => exact Or.inr ⟨l, eq_session_of_sessionLabel hlabel, hcompletion⟩

/-- A step takes no completion of the client out of the queue, or one that is taken up by it. -/
lemma queued_of_step {s t : Server} {a : ServerLabel} {k : ℕ} (hheld : s.AllHeld)
    (huntouched : s.Untouched) (h : s.step a = some t) :
    s.queued k ≤ t.queued k ∨
      (∃ l, a = .session k l ∧ l.isCompletion = true) ∧ s.queued k ≤ t.queued k + 1 := by
  cases Seen.of_step (k := k) huntouched h with
  | unseen _ hview => exact Or.inl (by rw [queued, queued, hview])
  | started _ hnot _ _ => exact Or.inl (by simp [queued, hnot])
  | @moved l p q hlabel hp hq hstep =>
    have hle := Session.queued_of_step (hheld.held hp).chain hstep
    rw [queued, queued, hp, hq]
    cases hcompletion : l.isCompletion with
    | false =>
      rw [hcompletion] at hle
      exact Or.inl hle
    | true =>
      rw [hcompletion] at hle
      exact Or.inr ⟨⟨l, eq_session_of_sessionLabel hlabel, hcompletion⟩, hle⟩

/-- No two clients whose strands share an implementation have handlers running. -/
def Exclusive (strandOf : ℕ → ℕ) (s : Server) : Prop :=
  ∀ j k, j ≠ k → strandOf j = strandOf k → s.handles j = true → s.handles k = false

end Server

lemma PoolLabel.handlerOf_eq_some {a : PoolLabel} {k : ℕ} :
    a.handlerOf = some k ↔ ∃ l, a = .server (.session k l) ∧ l.isCompletion = true := by
  constructor
  · intro h
    unfold handlerOf at h
    split at h
    · next j l =>
      split_ifs at h with hl
      obtain rfl := Option.some.inj h
      exact ⟨l, rfl, hl⟩
    · cases h
  · rintro ⟨l, rfl, hl⟩
    exact if_pos hl

namespace Pool

lemma untouched_of_step {p q : Pool} {a : PoolLabel} (hp : p.server.Untouched)
    (h : p.stepOnThreads a = some q) : q.server.Untouched := by
  cases OnThreadsRule.of_step h with
  | server hserver _ => exact hp.step hserver
  | leave _ => exact hp
  | clear => exact hp

lemma handles_of_step {p q : Pool} {a : PoolLabel} {k : ℕ} (hheld : p.server.AllHeld)
    (huntouched : p.server.Untouched) (h : p.stepOnThreads a = some q)
    (hk : q.server.handles k = true) : p.server.handles k = true ∨ a.handlerOf = some k := by
  cases OnThreadsRule.of_step h with
  | server hserver _ =>
    refine (Server.handles_of_step hheld huntouched hserver hk).imp_right ?_
    rintro ⟨l, rfl, hl⟩
    exact PoolLabel.handlerOf_eq_some.mpr ⟨l, rfl, hl⟩
  | leave _ => exact Or.inl hk
  | clear => exact Or.inl hk

lemma queued_of_step {p q : Pool} {a : PoolLabel} (hheld : p.server.AllHeld)
    (huntouched : p.server.Untouched) (h : p.stepOnThreads a = some q) (k : ℕ) :
    p.server.queued k ≤ q.server.queued k ∨
      a.handlerOf = some k ∧ p.server.queued k ≤ q.server.queued k + 1 := by
  cases OnThreadsRule.of_step h with
  | server hserver _ =>
    refine (Server.queued_of_step hheld huntouched hserver).imp_right (And.imp_left ?_)
    rintro ⟨l, rfl, hl⟩
    exact PoolLabel.handlerOf_eq_some.mpr ⟨l, rfl, hl⟩
  | leave _ => exact Or.inl le_rfl
  | clear => exact Or.inl le_rfl

end Pool

namespace Strands

variable {strandOf : ℕ → ℕ}

/-- Whoever is in line for an implementation has a strand that uses it, and a completion queued for
each of its places. -/
def InLine (strandOf : ℕ → ℕ) (p : Strands) : Prop :=
  ∀ i k, k ∈ p.waiting i → strandOf k = i ∧ (p.waiting i).count k ≤ p.pool.server.queued k

/-- What a run of the strands keeps. -/
structure Sound (strandOf : ℕ → ℕ) (p : Strands) : Prop where
  occupied : p.pool.server.Occupied
  untouched : p.pool.server.Untouched
  exclusive : p.pool.server.Exclusive strandOf
  inLine : p.InLine strandOf

lemma sound_init (threadsCount : ℕ) : Sound strandOf (init threadsCount) where
  occupied := Server.occupied_init threadsCount
  untouched := Server.untouched_init threadsCount
  exclusive := by
    intro j k _ _ hj
    cases hj
  inLine := by
    intro i k hk
    cases hk

lemma Sound.step_inLine {p q : Strands} {a : StrandsLabel} (hp : Sound strandOf p)
    (h : p.step strandOf a = some q) : InLine strandOf q := by
  intro i k hk
  cases StrandsRule.of_step h with
  | @handler a k' pool ha hpool hadmits =>
    have hqueued := Pool.queued_of_step hp.occupied.held hp.untouched hpool k
    by_cases hi : i = strandOf k'
    · subst hi
      simp only [Function.update_self] at hk ⊢
      obtain ⟨hstrand, hle⟩ := hp.inLine _ k (List.mem_of_mem_tail hk)
      refine ⟨hstrand, ?_⟩
      cases hwaiting : p.waiting (strandOf k') with
      | nil =>
        rw [hwaiting] at hk
        cases hk
      | cons j rest =>
        -- the first in line leaves it
        have hfirst : j = k' := by
          rw [admits, hwaiting, Bool.and_eq_true] at hadmits
          exact beq_iff_eq.mp hadmits.2
        rw [hwaiting, List.count_cons, hfirst] at hle
        rw [List.tail_cons]
        rcases hqueued with hqueued | ⟨hk', hqueued⟩
        · omega
        · obtain rfl := Option.some.inj (ha.symm.trans hk')
          rw [beq_self_eq_true, if_pos rfl] at hle
          omega
    · simp only [Function.update_of_ne hi] at hk ⊢
      obtain ⟨hstrand, hle⟩ := hp.inLine i k hk
      refine ⟨hstrand, hle.trans (hqueued.resolve_right fun hnot => hi ?_)⟩
      rw [← hstrand, Option.some.inj (ha.symm.trans hnot.1)]
  | @other a pool ha hpool =>
    obtain ⟨hstrand, hle⟩ := hp.inLine i k hk
    have hqueued := Pool.queued_of_step hp.occupied.held hp.untouched hpool k
    refine ⟨hstrand, hle.trans (hqueued.resolve_right fun hnot => ?_)⟩
    cases ha.symm.trans hnot.1
  | @wait k' hlt =>
    by_cases hi : i = strandOf k'
    · subst hi
      simp only [Function.update_self, List.mem_append, List.mem_singleton] at hk ⊢
      rw [List.count_append, List.count_singleton]
      by_cases hkk : k = k'
      · subst hkk
        rw [beq_self_eq_true, if_pos rfl]
        exact ⟨rfl, hlt⟩
      · obtain ⟨hstrand, hle⟩ := hp.inLine _ k (hk.resolve_right hkk)
        rw [if_neg (by simpa using Ne.symm hkk)]
        exact ⟨hstrand, hle⟩
    · simp only [Function.update_of_ne hi] at hk ⊢
      exact hp.inLine i k hk

lemma Sound.step {p q : Strands} {a : StrandsLabel} (hp : Sound strandOf p)
    (h : p.step strandOf a = some q) : Sound strandOf q where
  occupied := invariant_of_pool (fun _ _ _ hp h => (Pool.occupied_of_step hp h).1) hp.occupied h
  untouched := invariant_of_pool (fun _ _ _ hp h => Pool.untouched_of_step hp h) hp.untouched h
  exclusive := by
    intro i j hij hstrand hi
    by_contra hj
    replace hj := Bool.of_not_eq_false hj
    have hheld := hp.occupied.held
    cases StrandsRule.of_step h with
    | @handler a k pool ha hpool hadmits =>
      rw [admits, Bool.and_eq_true, Bool.not_eq_true', Server.heldByOther_eq_false_iff] at hadmits
      -- whoever is not taken up was running before
      rcases Pool.handles_of_step hheld hp.untouched hpool hi with hi | hi <;>
        rcases Pool.handles_of_step hheld hp.untouched hpool hj with hj | hj
      · cases hj.symm.trans (hp.exclusive i j hij hstrand hi)
      · obtain rfl := Option.some.inj (ha.symm.trans hj)
        cases hi.symm.trans (hadmits.1 i hij hstrand)
      · obtain rfl := Option.some.inj (ha.symm.trans hi)
        cases hj.symm.trans (hadmits.1 j hij.symm hstrand.symm)
      · exact hij (Option.some.inj (hi.symm.trans hj))
    | @other a pool ha hpool =>
      have key : ∀ {m : ℕ}, pool.server.handles m = true → p.pool.server.handles m = true := by
        intro m hm
        refine (Pool.handles_of_step hheld hp.untouched hpool hm).resolve_right fun hnot => ?_
        cases ha.symm.trans hnot
      cases (key hj).symm.trans (hp.exclusive i j hij hstrand (key hi))
    | wait _ => cases hj.symm.trans (hp.exclusive i j hij hstrand hi)
  inLine := hp.step_inLine h

/-- In every run, no two clients whose strands share an implementation have handlers running at the
same time, no two handlers run on one thread, and whoever is in line has a completion queued. -/
theorem sound_of_run {threadsCount : ℕ} {as : List StrandsLabel} {p : Strands}
    (hrun : Core.run (step strandOf) (init threadsCount) as = some p) : Sound strandOf p :=
  Core.run_invariant (fun _ _ _ hp h => Sound.step hp h) (sound_init threadsCount) hrun

end Strands

end EzServer.Application
