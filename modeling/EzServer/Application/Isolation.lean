import EzServer.Net.ReadFraming
import EzServer.Application.Arrivals
import EzServer.Application.CloseEvent

/-!
# Clients do not disturb each other

Each client of the server is a projection of it: however the threads interleave, a client moves as a
session of its own, from the start of the client on, along the steps that are its own.
-/

namespace EzServer.Application

open Net Net.AsyncTcpClient

/-- The step of the `k`-th session that a step of the server is. -/
def sessionLabel (k : ℕ) : ServerLabel → Option SessionLabel
  | .session j l => if j = k then some l else none
  | _ => none

namespace Session

/-- A client that has just been started. -/
def IsAccepted (s : Session) : Prop := ∃ id socket, s = accepted id socket

lemma start_subscribed (id : UInt64) (socket : List UInt8) :
    (subscribed id socket).step (.client .start) = some (accepted id socket) := rfl

lemma id_of_run {s t : Session} {ls : List SessionLabel} (h : Core.run step s ls = some t) :
    t.id = s.id :=
  Core.run_invariant (I := fun u => u.id = s.id) (fun _ _ _ hu hstep => (id_of_step hstep).trans hu)
    rfl h

lemma stream_of_run {s t : Session} {ls : List SessionLabel} (h : Core.run step s ls = some t) :
    t.client.stream = s.client.stream :=
  Core.run_invariant (I := fun u => u.client.stream = s.client.stream)
    (fun _ _ _ hu hstep => (stream_of_step hstep).trans hu) rfl h

end Session

/-- The session of a connection whose client has been started. -/
def Connection.started (c : Connection) : Option Session :=
  if c.accepting = .start then none else some c.session

namespace Server

/-- The `k`-th session, once its client has been started. -/
def sessionAt (k : ℕ) (s : Server) : Option Session := s.connections[k]?.bind Connection.started

/-- Nobody touches a client before it is started. -/
def Untouched (s : Server) : Prop :=
  ∀ (k : ℕ) (c : Connection), s.connections[k]? = some c → c.accepting = .start →
    ∃ id socket, c.session = .subscribed id socket

/-! ### Steps -/

lemma sessionAt_congr {s t : Server} (h : t.connections = s.connections) (k : ℕ) :
    t.sessionAt k = s.sessionAt k := by
  rw [sessionAt, h]
  rfl

/-- A step on one connection is not seen from the others. -/
lemma sessionAt_put_of_ne {s : Server} {j k : ℕ} (d : Connection) (h : j ≠ k) :
    (s.put j d).sessionAt k = s.sessionAt k := by
  show (s.connections.set j d)[k]?.bind Connection.started = _
  rw [List.getElem?_set_ne h]
  rfl

lemma sessionAt_put_self {s : Server} {k : ℕ} {c : Connection} (hc : s.connections[k]? = some c)
    (d : Connection) : (s.put k d).sessionAt k = d.started := by
  show (s.connections.set k d)[k]?.bind Connection.started = _
  rw [List.getElem?_set_self (List.getElem?_eq_some_iff.mp hc).1]
  rfl

lemma sessionAt_eq {s : Server} {k : ℕ} {c : Connection} (hc : s.connections[k]? = some c) :
    s.sessionAt k = c.started := by
  rw [sessionAt, hc]
  rfl

/-- A client that is not started yet is not seen. -/
lemma sessionAt_concat {s t : Server} {c : Connection} (ht : t.connections = s.connections ++ [c])
    (hat : c.accepting = .start) (k : ℕ) : t.sessionAt k = s.sessionAt k := by
  rw [sessionAt, sessionAt, ht]
  cases hk : (s.connections ++ [c])[k]? with
  | none =>
    have hle := List.getElem?_eq_none_iff.mp hk
    rw [List.length_append] at hle
    rw [List.getElem?_eq_none (by omega)]
  | some d =>
    rcases Core.getElem?_concat_eq_some.mp hk with hd | ⟨rfl, rfl⟩
    · rw [hd]
    · simp [Connection.started, hat]

lemma started_of_step {s t : Server} {k : ℕ} {l : SessionLabel}
    (h : s.step (.session k l) = some t) :
    ∃ c, s.connections[k]? = some c ∧ c.accepting ≠ .start := by
  obtain ⟨c, hc, h⟩ := step_session_eq_some h
  refine ⟨c, hc, fun hat => ?_⟩
  rw [stepSession, if_pos (by simp [hat])] at h
  cases h

/-- What a step of the server is to the `k`-th session. -/
inductive Seen (k : ℕ) (s : Server) (a : ServerLabel) (t : Server) : Prop where
  | unseen (hlabel : sessionLabel k a = none) (hview : t.sessionAt k = s.sessionAt k)
  | started {session : Session} (hlabel : sessionLabel k a = none) (hnot : s.sessionAt k = none)
      (haccepted : session.IsAccepted) (hview : t.sessionAt k = some session)
  | moved {l : SessionLabel} {p q : Session} (hlabel : sessionLabel k a = some l)
      (hp : s.sessionAt k = some p) (hq : t.sessionAt k = some q) (hstep : p.step l = some q)

/-- A connection that goes on in `OnNewClientAccepted` after the start of its client. -/
lemma sessionAt_put_accepting {s : Server} {j k : ℕ} {c : Connection} {next : AcceptedStatement}
    (hc : s.connections[j]? = some c) (hat : c.accepting ≠ .start) (hnext : next ≠ .start) :
    (s.put j { c with accepting := next }).sessionAt k = s.sessionAt k := by
  by_cases hjk : j = k
  · obtain rfl := hjk
    rw [sessionAt_put_self hc, sessionAt_eq hc, Connection.started, Connection.started, if_neg hnext,
      if_neg hat]
  · exact sessionAt_put_of_ne _ hjk

/-- A step of the `j`-th session. -/
lemma Seen.of_session {s t : Server} {j k : ℕ} {c : Connection} {session : Session}
    {l : SessionLabel} (hc : s.connections[j]? = some c) (hat : c.accepting ≠ .start)
    (hsession : c.session.step l = some session)
    (ht : t.connections = (s.put j { c with session := session }).connections) :
    Seen k s (.session j l) t := by
  by_cases hjk : j = k
  · obtain rfl := hjk
    refine .moved (if_pos rfl) (p := c.session) ?_ ?_ hsession
    · rw [sessionAt_eq hc, Connection.started, if_neg hat]
    · rw [sessionAt_congr ht, sessionAt_put_self hc, Connection.started, if_neg hat]
  · refine .unseen (if_neg hjk) ?_
    rw [sessionAt_congr ht]
    exact sessionAt_put_of_ne _ hjk

/-- Every step moves at most one session, by a step of its own. -/
lemma Seen.of_step {k : ℕ} {s t : Server} {a : ServerLabel} (hs : s.Untouched)
    (h : s.step a = some t) : Seen k s a t := by
  cases ServerRule.of_step h with
  | startup _ _ => exact .unseen rfl rfl
  | startedBefore _ _ => exact .unseen rfl rfl
  | firstAccept _ _ => exact .unseen rfl rfl
  | completed _ => exact .unseen rfl rfl
  | failed _ => exact .unseen rfl rfl
  | unheard _ _ => exact .unseen rfl rfl
  | entered _ _ => exact .unseen rfl rfl
  | thrown _ => exact .unseen rfl rfl
  | logged _ => exact .unseen rfl rfl
  | created _ => exact .unseen rfl (sessionAt_concat rfl rfl k)
  | @started j c session hc hat hsession =>
    by_cases hjk : j = k
    · obtain rfl := hjk
      obtain ⟨id, socket, hsub⟩ := hs j c hc hat
      rw [hsub, Session.start_subscribed] at hsession
      obtain rfl := Option.some.inj hsession
      refine .started rfl ?_ ⟨id, socket, rfl⟩ (sessionAt_put_self hc _)
      rw [sessionAt_eq hc, Connection.started, if_pos hat]
    · exact .unseen rfl (sessionAt_put_of_ne _ hjk)
  | @emplaced j c hc hat =>
    exact .unseen rfl (sessionAt_put_accepting hc (by simp [hat]) (by simp))
  | @nextAccept j c hc hat _ =>
    exact .unseen rfl (sessionAt_put_accepting hc (by simp [hat]) (by simp))
  | @noAccept j c hc hat _ =>
    exact .unseen rfl (sessionAt_put_accepting hc (by simp [hat]) (by simp))
  | erased hc _ hsession =>
    obtain ⟨c', hc', hat⟩ := started_of_step h
    obtain rfl := Option.some.inj (hc.symm.trans hc')
    exact .of_session hc hat hsession rfl
  | session hc hsession _ =>
    obtain ⟨c', hc', hat⟩ := started_of_step h
    obtain rfl := Option.some.inj (hc.symm.trans hc')
    exact .of_session hc hat hsession rfl

lemma Untouched.put {s t : Server} {k : ℕ} {c d : Connection} (hs : s.Untouched)
    (hc : s.connections[k]? = some c) (hd : d.accepting ≠ .start)
    (ht : t.connections = (s.put k d).connections) : t.Untouched := by
  intro j e he hat
  rw [ht] at he
  rcases (Core.getElem?_set_eq_some hc).mp he with ⟨rfl, rfl⟩ | ⟨_, he⟩
  · exact absurd hat hd
  · exact hs j e he hat

lemma Untouched.step {s t : Server} {a : ServerLabel} (hs : s.Untouched) (h : s.step a = some t) :
    t.Untouched := by
  cases ServerRule.of_step h with
  | created _ =>
    intro k c hc hat
    rcases Core.getElem?_concat_eq_some.mp hc with hc | ⟨rfl, rfl⟩
    · exact hs k c hc hat
    · exact ⟨_, _, rfl⟩
  | started hc _ _ => exact hs.put hc (by simp) rfl
  | emplaced hc _ => exact hs.put hc (by simp) rfl
  | nextAccept hc _ _ => exact hs.put hc (by simp) rfl
  | noAccept hc _ _ => exact hs.put hc (by simp) rfl
  | @erased k c session _ _ hc _ _ =>
    obtain ⟨c', hc', hat⟩ := started_of_step h
    obtain rfl := Option.some.inj (hc.symm.trans hc')
    exact hs.put (d := { c with session := session }) hc hat rfl
  | @session k c session _ _ hc _ _ =>
    obtain ⟨c', hc', hat⟩ := started_of_step h
    obtain rfl := Option.some.inj (hc.symm.trans hc')
    exact hs.put (d := { c with session := session }) hc hat rfl
  | _ => exact hs

/-- The `k`-th session is a projection of the server. -/
lemma projection (k : ℕ) :
    Core.Projection step Session.step (sessionAt k) (sessionLabel k) Untouched
      Session.IsAccepted where
  keeps := fun _ _ _ hs h => hs.step h
  follows := by
    intro s a t p hs h hp
    cases Seen.of_step (k := k) hs h with
    | unseen hlabel hview =>
      rw [hlabel]
      exact ⟨p, rfl, hview.trans hp⟩
    | started _ hnot _ _ =>
      rw [hnot] at hp
      cases hp
    | @moved l p' q hlabel hp' hq hstep =>
      obtain rfl := Option.some.inj (hp'.symm.trans hp)
      rw [hlabel]
      exact ⟨q, Core.run_cons_eq_some.mpr ⟨q, hstep, rfl⟩, hq⟩
  enters := by
    intro s a t hs h hnot
    cases Seen.of_step (k := k) hs h with
    | unseen hlabel hview =>
      refine ⟨hlabel, fun p hp => ?_⟩
      rw [hview, hnot] at hp
      cases hp
    | started hlabel _ haccepted hview =>
      refine ⟨hlabel, fun p hp => ?_⟩
      obtain rfl := Option.some.inj (hview.symm.trans hp)
      exact haccepted
    | moved _ hp _ _ =>
      rw [hnot] at hp
      cases hp

lemma untouched_init (threadsCount : ℕ) : (init threadsCount).Untouched := by simp [Untouched, init]

/-! ### Runs -/

lemma arrival_of_connection {threadsCount : ℕ} {as : List ServerLabel} {s : Server} {k : ℕ}
    {c : Connection} (hrun : Core.run step (init threadsCount) as = some s)
    (hc : s.connections[k]? = some c) :
    c.session.id = UInt64.ofNat (k + 1) ∧ (arrivals as)[k]? = some c.arrival := by
  have hs := (accounted_init threadsCount).run hrun
  rw [List.nil_append] at hs
  obtain ⟨rest, hrest, -⟩ := hs.account
  have hserved : s.served[k]? = some c.arrival := by
    rw [served, List.getElem?_map, hc]
    rfl
  refine ⟨hs.ids k c hc, ?_⟩
  rw [hrest, List.getElem?_append_left (List.getElem?_eq_some_iff.mp hserved).1]
  exact hserved

lemma exists_session_run {threadsCount : ℕ} {as : List ServerLabel} {s : Server} {k : ℕ}
    {session : Session} (hrun : Core.run step (init threadsCount) as = some s)
    (hsession : s.sessionAt k = some session) :
    ∃ socket, (arrivals as)[k]? = some (.ok socket) ∧
      Core.run Session.step (.accepted (UInt64.ofNat (k + 1)) socket)
        (as.filterMap (sessionLabel k)) = some session := by
  obtain ⟨c, hc, hstarted⟩ := Option.bind_eq_some_iff.mp hsession
  obtain rfl : c.session = session := by
    rw [Connection.started] at hstarted
    split_ifs at hstarted
    exact Option.some.inj hstarted
  obtain ⟨hid, harrival⟩ := arrival_of_connection hrun hc
  obtain ⟨p, ⟨id, socket, rfl⟩, hp⟩ :=
    (projection k).run_of_enter (untouched_init threadsCount) rfl hrun hsession
  have hid' : c.session.id = id := Session.id_of_run hp
  have hsocket : c.session.client.stream = socket := Session.stream_of_run hp
  refine ⟨socket, ?_, ?_⟩
  · rw [harrival, Connection.arrival, hsocket]
  · rw [← hid, hid']
    exact hp

lemma untouched_of_run {threadsCount : ℕ} {as : List ServerLabel} {s : Server}
    (hrun : Core.run step (init threadsCount) as = some s) : s.Untouched :=
  Core.run_invariant (fun _ _ _ hs h => Untouched.step hs h) (untouched_init threadsCount) hrun

/-- In every run of the server, the `k`-th client has done what a session by itself does along its
own steps of the run, on the `k`-th socket that arrived and with the `Id` `k + 1`; and no step but
its own ever changes it. -/
theorem sessions_independent {threadsCount : ℕ} {as : List ServerLabel} {s : Server} {k : ℕ}
    {session : Session} (hrun : Core.run step (init threadsCount) as = some s)
    (hsession : s.sessionAt k = some session) :
    (∃ socket, (arrivals as)[k]? = some (.ok socket) ∧
      Core.run Session.step (.accepted (UInt64.ofNat (k + 1)) socket)
        (as.filterMap (sessionLabel k)) = some session) ∧
      ∀ a t, s.step a = some t → sessionLabel k a = none → t.sessionAt k = some session := by
  refine ⟨exists_session_run hrun hsession, fun a t h hnone => ?_⟩
  obtain ⟨q, hq, hview⟩ := (projection k).follows s a t session (untouched_of_run hrun) h hsession
  rw [hnone] at hq
  obtain rfl := Option.some.inj hq
  exact hview

/-- Two clients, the second of which is accepted while the first is being read. -/
theorem sessions_independent_two :
    let as := List.replicate 7 (.startup ⟨false, false, false⟩) ++ [.complete 0 (.ok [65]),
      .handle 0 false, .handle 0 false, .handle 0 false, .accepted 0, .accepted 0,
      .session 0 (.client (.arrive 1)), .accepted 0, .complete 0 (.ok [66]), .handle 0 false,
      .handle 0 false, .session 0 (.client (.read 0 (.receiveSome 1))), .handle 0 false,
      .accepted 1, .session 1 (.client .stop)]
    ∃ s session, (Core.run step (init 2) as = some s ∧ s.sessionAt 0 = some session) ∧
      (∃ socket, (arrivals as)[0]? = some (.ok socket) ∧
        Core.run Session.step (.accepted (UInt64.ofNat (0 + 1)) socket)
          (as.filterMap (sessionLabel 0)) = some session) ∧
      ∀ a t, s.step a = some t → sessionLabel 0 a = none → t.sessionAt 0 = some session :=
  ⟨_, _, ⟨rfl, rfl⟩, @sessions_independent 2 _ _ 0 _ rfl rfl⟩

end Server

end EzServer.Application
