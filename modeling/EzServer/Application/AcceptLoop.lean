import EzServer.Application.ServerRules

/-!
# The accept loop

The next accept is issued by `OnNewClientAccepted` only, so an accept that never gets there, because
it failed or nobody was subscribed, is the last one.
-/

namespace EzServer.Application

open Net

/-- `OnNewClientAccepted` has not yet issued the next accept. -/
def Connection.isLive (c : Connection) : Bool := c.accepting != .returned

namespace Server

/-- `Start` has set `is_started_` and issued the first accept. -/
def isAccepting (s : Server) : Bool := s.startup.isAccepting

/-- The accepts that are pending or queued, or whose handler has not yet issued the next one. -/
def live (s : Server) : ℕ := s.accepts.length + s.connections.countP Connection.isLive

/-- A started listener has exactly one live accept. -/
def AcceptsOne (s : Server) : Prop := s.isAccepting = true → s.live = 1

/-- A completion is a connection, and somebody is subscribed to it. -/
def heard (s : Server) : ServerLabel → Bool
  | .handle i _ =>
    match s.accepts[i]? with
    | some (.completed (.error _)) => false
    | some (.completed (.ok _)) => s.subscribed
    | _ => true
  | _ => true

/-- `remote_endpoint` does not throw in `OnNewClientAccepted`. -/
def endpointKnown : ServerLabel → Bool
  | .handle _ throws => !throws
  | _ => true

/-- The listener and the main thread agree, and accepts are only there once the first is issued. -/
structure Serving (s : Server) : Prop where
  listening : s.listener.isStarted = s.startup.isListening
  quiet : s.isAccepting = false → s.accepts = [] ∧ s.connections = []

lemma serving_init (threadsCount : ℕ) : Serving (init threadsCount) :=
  ⟨rfl, fun _ => ⟨rfl, rfl⟩⟩

/-! ### Steps -/

lemma isAccepting_of_accept {s : Server} (hs : Serving s) {i : ℕ} {op : AcceptOp}
    (hop : s.accepts[i]? = some op) : s.isAccepting = true := by
  by_contra h
  simp [(hs.quiet (by simpa using h)).1] at hop

lemma isAccepting_of_connection {s : Server} (hs : Serving s) {k : ℕ} {c : Connection}
    (hc : s.connections[k]? = some c) : s.isAccepting = true := by
  by_contra h
  simp [(hs.quiet (by simpa using h)).2] at hc

lemma isStarted_of_isAccepting {s : Server} (hs : Serving s) (h : s.isAccepting = true) :
    s.listener.isStarted = true := by
  rw [hs.listening]
  rw [isAccepting] at h
  generalize s.startup = statement at h
  cases statement with
  | returned result => cases result <;> first | rfl | cases h
  | _ => first | rfl | cases h

lemma Serving.congr {s t : Server} (hs : Serving s) (h : s.isAccepting = true)
    (hstartup : t.startup = s.startup) (hlistener : t.listener = s.listener) : Serving t := by
  constructor
  · rw [hstartup, hlistener, hs.listening]
  · intro hnot
    rw [isAccepting, hstartup] at hnot
    exact absurd (hnot.symm.trans h) (by simp)

lemma Serving.step {s t : Server} {a : ServerLabel} (hs : Serving s) (h : s.step a = some t) :
    Serving t := by
  cases ServerRule.of_step h with
  | startup hlisten haccept =>
    refine ⟨hlisten hs.listening, fun hnot => hs.quiet ?_⟩
    exact haccept.symm.trans hnot
  | startedBefore hat hlisten =>
    rw [hs.listening, hat] at hlisten
    cases hlisten
  | firstAccept hat hlisten => exact ⟨hlisten, fun hnot => by cases hnot⟩
  | completed hop => exact hs.congr (isAccepting_of_accept hs hop) rfl rfl
  | failed hop => exact hs.congr (isAccepting_of_accept hs hop) rfl rfl
  | unheard hop _ => exact hs.congr (isAccepting_of_accept hs hop) rfl rfl
  | entered hop _ => exact hs.congr (isAccepting_of_accept hs hop) rfl rfl
  | thrown hop => exact hs.congr (isAccepting_of_accept hs hop) rfl rfl
  | logged hop => exact hs.congr (isAccepting_of_accept hs hop) rfl rfl
  | created hop => exact hs.congr (isAccepting_of_accept hs hop) rfl rfl
  | started hc _ _ => exact hs.congr (isAccepting_of_connection hs hc) rfl rfl
  | emplaced hc _ => exact hs.congr (isAccepting_of_connection hs hc) rfl rfl
  | nextAccept hc _ _ => exact hs.congr (isAccepting_of_connection hs hc) rfl rfl
  | noAccept hc _ _ => exact hs.congr (isAccepting_of_connection hs hc) rfl rfl
  | erased hc _ _ => exact hs.congr (isAccepting_of_connection hs hc) rfl rfl
  | session hc _ _ => exact hs.congr (isAccepting_of_connection hs hc) rfl rfl

lemma length_eraseIdx_succ {i : ℕ} {accepts : List AcceptOp} {op : AcceptOp}
    (hop : accepts[i]? = some op) : (accepts.eraseIdx i).length + 1 = accepts.length := by
  have hi : i < accepts.length := (List.getElem?_eq_some_iff.mp hop).1
  rw [List.length_eraseIdx_of_lt hi]
  omega

/-- Putting back a connection that is as live as before. -/
lemma live_put {s : Server} {k : ℕ} {c d : Connection} (hc : s.connections[k]? = some c)
    (hd : d.isLive = c.isLive) : (s.put k d).live = s.live := by
  obtain ⟨hk, rfl⟩ := List.getElem?_eq_some_iff.mp hc
  have hpos : s.connections[k].isLive = true → 0 < s.connections.countP Connection.isLive :=
    fun h => List.countP_pos_iff.mpr ⟨_, List.getElem_mem hk, h⟩
  simp only [live, put, List.countP_set hk, hd]
  split_ifs with h
  · have := hpos h
    omega
  · omega

lemma countP_set_returned {k : ℕ} {c : Connection} {connections : List Connection}
    (hc : connections[k]? = some c) (hat : c.accepting = .acceptNext) :
    (connections.set k { c with accepting := .returned }).countP Connection.isLive + 1 =
      connections.countP Connection.isLive := by
  obtain ⟨hk, rfl⟩ := List.getElem?_eq_some_iff.mp hc
  have hlive : connections[k].isLive = true := by simp [Connection.isLive, hat]
  have hpos : 0 < connections.countP Connection.isLive :=
    List.countP_pos_iff.mpr ⟨_, List.getElem_mem hk, hlive⟩
  rw [List.countP_set hk, if_pos hlive, if_neg (by simp [Connection.isLive])]
  omega

lemma AcceptsOne.congr {s t : Server} (hs : s.AcceptsOne) (hstartup : t.startup = s.startup)
    (hlive : t.live = s.live) : t.AcceptsOne := by
  intro h
  rw [isAccepting, hstartup] at h
  exact hlive.trans (hs h)

/-- Without its one accept the listener has none. -/
lemma AcceptsOne.not_erase {s : Server} {i : ℕ} {op : AcceptOp} (hone : s.AcceptsOne)
    (hs : Serving s) (hop : s.accepts[i]? = some op) :
    ¬ ({ s with accepts := s.accepts.eraseIdx i } : Server).AcceptsOne := by
  intro hone'
  have hacc := isAccepting_of_accept hs hop
  have hlen := length_eraseIdx_succ hop
  have hbefore : s.accepts.length + s.connections.countP Connection.isLive = 1 := hone hacc
  have hafter : (s.accepts.eraseIdx i).length + s.connections.countP Connection.isLive = 1 :=
    hone' hacc
  omega

/-- A step keeps the one accept exactly if the completion it handles is heard. -/
lemma acceptsOne_step_iff {s t : Server} {a : ServerLabel} (hs : Serving s) (hone : s.AcceptsOne)
    (hknown : endpointKnown a = true) (h : s.step a = some t) :
    t.AcceptsOne ↔ s.heard a = true := by
  cases ServerRule.of_step h with
  | startup hlisten haccept =>
    exact iff_of_true (fun hacc => hone (haccept.symm.trans hacc)) rfl
  | startedBefore hat hlisten =>
    rw [hs.listening, hat] at hlisten
    cases hlisten
  | firstAccept hat hlisten =>
    obtain ⟨haccepts, hconnections⟩ := hs.quiet (by rw [isAccepting, hat]; rfl)
    exact iff_of_true (fun _ => by simp [live, haccepts, hconnections]) rfl
  | completed hop => exact iff_of_true (hone.congr rfl (by simp [live])) rfl
  | failed hop => exact iff_of_false (hone.not_erase hs hop) (by simp [heard, hop])
  | unheard hop hsub =>
    apply iff_of_false (hone.not_erase hs hop)
    simp [heard, hop, hsub]
  | entered hop hsub =>
    exact iff_of_true (hone.congr rfl (by simp [live])) (by simp [heard, hop, hsub])
  | thrown hop => cases hknown
  | logged hop => exact iff_of_true (hone.congr rfl (by simp [live])) (by simp [heard, hop])
  | created hop =>
    refine iff_of_true (hone.congr rfl ?_) (by simp [heard, hop])
    have hlen := length_eraseIdx_succ hop
    simp only [live, List.countP_append, List.countP_singleton]
    simp [Connection.isLive]
    omega
  | started hc hat _ =>
    refine iff_of_true (hone.congr rfl (live_put hc ?_)) rfl
    rw [Connection.isLive, Connection.isLive, hat]
    rfl
  | emplaced hc hat =>
    refine iff_of_true (hone.congr rfl (live_put hc ?_)) rfl
    rw [Connection.isLive, Connection.isLive, hat]
    rfl
  | nextAccept hc hat _ =>
    refine iff_of_true (hone.congr rfl ?_) rfl
    have hcount := countP_set_returned hc hat
    simp only [live, put, List.length_append, List.length_singleton]
    omega
  | noAccept hc hat hlisten =>
    rw [isStarted_of_isAccepting hs (isAccepting_of_connection hs hc)] at hlisten
    cases hlisten
  | erased hc _ _ =>
    exact iff_of_true (hone.congr rfl (live_put hc rfl)) rfl
  | session hc _ _ =>
    exact iff_of_true (hone.congr rfl (live_put hc rfl)) rfl

/-! ### Runs -/

/-- Along a run, a started listener has exactly one live accept in every state if and only if every
completion that is handled is a connection that finds a subscriber. -/
theorem acceptsOne_iff_heard {threadsCount : ℕ} {as : List ServerLabel} {s : Server}
    (hrun : Core.run step (init threadsCount) as = some s)
    (hknown : Core.EveryStep step (fun _ a => endpointKnown a = true) (init threadsCount) as) :
    Core.EveryState step AcceptsOne (init threadsCount) as ↔
      Core.EveryStep step (fun t a => t.heard a = true) (init threadsCount) as :=
  Core.everyState_iff_everyStep (fun _ _ _ hs _ h => Serving.step hs h)
    (fun _ _ _ hs hone hknown h => acceptsOne_step_iff hs hone hknown h)
    (serving_init threadsCount) (fun h => by cases h) hknown hrun

/-- The server with one thread up to its first client. -/
theorem acceptsOne_iff_heard_first :
    let as := [.startup ⟨false, false, false⟩, .startup ⟨false, false, false⟩,
      .startup ⟨false, false, false⟩, .startup ⟨false, false, false⟩,
      .startup ⟨false, false, false⟩, .startup ⟨false, false, false⟩, .complete 0 (.ok []),
      .handle 0 false, .handle 0 false, .handle 0 false, .accepted 0, .accepted 0, .accepted 0]
    Core.EveryState step AcceptsOne (init 1) as ↔
      Core.EveryStep step (fun t a => t.heard a = true) (init 1) as :=
  acceptsOne_iff_heard rfl (by decide)

/-- An accept that fails, after `Startup` has done all its work, is the last one. -/
theorem not_acceptsOne_of_error :
    ¬ ∀ (threadsCount : ℕ) (as : List ServerLabel) (s : Server),
      Core.run step (init threadsCount) as = some s →
      Core.EveryStep step (fun _ a => endpointKnown a = true) (init threadsCount) as →
      s.AcceptsOne := by
  intro h
  have hone := h 1 [.startup ⟨false, false, false⟩, .startup ⟨false, false, false⟩,
    .startup ⟨false, false, false⟩, .startup ⟨false, false, false⟩,
    .startup ⟨false, false, false⟩, .startup ⟨false, false, false⟩,
    .complete 0 (.error (.other 24)), .handle 0 false] _ rfl (by decide)
  exact absurd (hone (by decide)) (by decide)

end Server

end EzServer.Application
