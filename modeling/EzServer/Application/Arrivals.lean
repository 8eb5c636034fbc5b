import EzServer.Core.Projection
import EzServer.Application.AcceptLoop

/-!
# Arrivals

What becomes of the connections that arrive. There is never more than one accept, so the clients are
the arrivals in their order, each with its ordinal number as `Id`; only the last arrival may be
without a client, and once it is lost no client is ever created again.
-/

namespace EzServer.Net.AsyncTcpClient

/-- All that the peer ever sends. -/
def stream (c : AsyncTcpClient) : List UInt8 := c.received ++ c.available ++ c.incoming

lemma stream_of_keeps {c c' : AsyncTcpClient} (h : Keeps c c') : c'.stream = c.stream := by
  rw [stream, List.append_assoc, h.stream, h.received, ← List.append_assoc]
  rfl

lemma stream_takeBytes (c : AsyncTcpClient) (n : ℕ) : (c.takeBytes n).stream = c.stream := by
  simp [stream, takeBytes, List.append_assoc]

lemma ReadRule.stream_of {c c' : AsyncTcpClient} {l : ReadLabel} {op : ReadOp} {ops : List ReadOp}
    (h : ReadRule c l op c' ops) : c'.stream = c.stream := by
  cases h
  case receiveSome n _ _ _ _ => exact stream_takeBytes c n
  case readMore n _ _ _ _ _ _ => exact stream_takeBytes c n
  case readEnough n _ _ _ _ _ _ => exact stream_takeBytes c n
  all_goals rfl

/-- No step adds to what the peer sends or takes from it. -/
lemma stream_of_step {c c' : AsyncTcpClient} {a : Label} (h : c.step a = some c') :
    c'.stream = c.stream := by
  by_cases ha : ∃ i l, a = .read i l
  · obtain ⟨i, l, rfl⟩ := ha
    simp only [step, Option.bind_eq_bind, Option.bind_eq_some_iff, Prod.exists] at h
    obtain ⟨op, -, c₁, ops, hstep, h⟩ := h
    obtain rfl := Option.some.inj h
    exact (ReadRule.of_stepRead hstep).stream_of
  · apply stream_of_keeps
    cases OuterRule.of_step (fun i l hil => ha ⟨i, l, hil⟩) h <;> assumption

end EzServer.Net.AsyncTcpClient

namespace EzServer.Application

open Net

lemma Session.stream_of_step {s s' : Session} {l : SessionLabel} (h : s.step l = some s') :
    s'.client.stream = s.client.stream := by
  cases SessionRule.of_step h with
  | returned hclient _ => exact AsyncTcpClient.stream_of_step hclient
  | client _ hclient => exact AsyncTcpClient.stream_of_step hclient
  | @closed throws statement _ _ hs' =>
    cases statement with
    | stop =>
      obtain rfl := Option.some.inj hs'
      exact AsyncTcpClient.stream_of_step (a := .stop) rfl
    | returned => cases hs'
    | _ =>
      obtain rfl := Option.some.inj hs'
      rfl
  | commandThrew _ => rfl

/-- What an accept completes with. -/
abbrev Arrival := Except ErrorCode (List UInt8)

/-- The arrival that an accept holds, if it has completed. -/
def AcceptOp.held : AcceptOp → List Arrival
  | .pending => []
  | .completed result => [result]
  | .logEndpoint socket | .createClient socket => [.ok socket]

/-- The arrival that the client was made of. -/
def Connection.arrival (c : Connection) : Arrival := .ok c.session.client.stream

/-- What the accepts of a run complete with. -/
def arrivals (as : List ServerLabel) : List Arrival :=
  as.filterMap fun
    | .complete _ result => some result
    | _ => none

namespace Server

/-- The arrivals that have a client. -/
def served (s : Server) : List Arrival := s.connections.map Connection.arrival

/-- The arrivals that are still to get one. -/
def inFlight (s : Server) : List Arrival := s.accepts.flatMap AcceptOp.held

/-- Every accept is gone, and nobody will issue another one. -/
def Deaf (s : Server) : Prop := s.isAccepting = true ∧ s.live = 0

/-- The arrivals so far have a client, are in the handler of the only accept, or were the last. -/
structure Accounted (history : List Arrival) (s : Server) : Prop where
  serving : Serving s
  live_le : s.live ≤ 1
  numbered : s.clientsCounter = UInt64.ofNat s.connections.length
  ids : ∀ k c, s.connections[k]? = some c → c.session.id = UInt64.ofNat (k + 1)
  account : ∃ rest, history = s.served ++ rest ∧
    (rest = s.inFlight ∨ s.Deaf ∧ rest.length = 1)

lemma accounted_init (threadsCount : ℕ) : Accounted [] (init threadsCount) where
  serving := serving_init threadsCount
  live_le := Nat.zero_le 1
  numbered := rfl
  ids := by simp [init]
  account := ⟨[], rfl, Or.inl rfl⟩

/-! ### The only accept -/

section One

variable {history : List Arrival} {s : Server}

lemma Accounted.accepts_eq (hs : Accounted history s) {i : ℕ} {op : AcceptOp}
    (hop : s.accepts[i]? = some op) :
    i = 0 ∧ s.accepts = [op] ∧ s.connections.countP Connection.isLive = 0 := by
  have hi : i < s.accepts.length := (List.getElem?_eq_some_iff.mp hop).1
  have hle := hs.live_le
  rw [live] at hle
  obtain rfl : i = 0 := by omega
  obtain ⟨op', hop'⟩ := List.length_eq_one_iff.mp (by omega : s.accepts.length = 1)
  refine ⟨rfl, ?_, by omega⟩
  rw [hop'] at hop ⊢
  exact congrArg (fun o => [o]) (Option.some.inj hop)

/-- While there is an accept or a call of `OnNewClientAccepted`, nothing has been lost. -/
lemma Accounted.account_of_live (hs : Accounted history s) (hlive : 0 < s.live) :
    history = s.served ++ s.inFlight := by
  obtain ⟨rest, hrest, rfl | ⟨⟨-, hzero⟩, -⟩⟩ := hs.account
  · exact hrest
  · omega

lemma live_pos_of_accept {i : ℕ} {op : AcceptOp} (hop : s.accepts[i]? = some op) :
    0 < s.live := by
  have hi : i < s.accepts.length := (List.getElem?_eq_some_iff.mp hop).1
  rw [live]
  omega

lemma live_pos_of_connection {k : ℕ} {c : Connection} (hc : s.connections[k]? = some c)
    (hlive : c.isLive = true) : 0 < s.live := by
  have hpos : 0 < s.connections.countP Connection.isLive :=
    List.countP_pos_iff.mpr ⟨c, List.mem_of_getElem? hc, hlive⟩
  rw [live]
  omega

/-- Only the startup statement, the accepts and the connections matter. -/
lemma Accounted.congr {t : Server} (hs : Accounted history s) (hserving : Serving t)
    (haccepting : t.isAccepting = s.isAccepting) (haccepts : t.accepts = s.accepts)
    (hconnections : t.connections = s.connections)
    (hcounter : t.clientsCounter = s.clientsCounter) : Accounted history t where
  serving := hserving
  live_le := by
    rw [live, haccepts, hconnections]
    exact hs.live_le
  numbered := by rw [hcounter, hconnections, hs.numbered]
  ids := by
    rw [hconnections]
    exact hs.ids
  account := by
    rw [served, Deaf, live, inFlight, haccepting, haccepts, hconnections]
    exact hs.account

/-- The only accept moves on, with the arrival it held before or a new one. -/
lemma Accounted.set {i : ℕ} {op op' : AcceptOp} {new : List Arrival} (hs : Accounted history s)
    (hop : s.accepts[i]? = some op) (hnew : op.held ++ new = op'.held) :
    Accounted (history ++ new) { s with accepts := s.accepts.set i op' } := by
  obtain ⟨rfl, haccepts, hcount⟩ := hs.accepts_eq hop
  have haccount := hs.account_of_live (live_pos_of_accept hop)
  refine ⟨?_, ?_, hs.numbered, hs.ids, op'.held, ?_, Or.inl ?_⟩
  · exact hs.serving.congr (isAccepting_of_accept hs.serving hop) rfl rfl
  · simp [live, haccepts, hcount]
  · rw [haccount, List.append_assoc, ← hnew]
    simp [inFlight, haccepts, served]
  · simp [inFlight, haccepts]

/-- The only accept is lost with its arrival. -/
lemma Accounted.erase {i : ℕ} {op : AcceptOp} {poolThreads : ℕ} (hs : Accounted history s)
    (hop : s.accepts[i]? = some op) (hheld : op.held.length = 1) :
    Accounted history { s with accepts := s.accepts.eraseIdx i, poolThreads := poolThreads } := by
  have haccepting := isAccepting_of_accept hs.serving hop
  obtain ⟨rfl, haccepts, hcount⟩ := hs.accepts_eq hop
  have haccount := hs.account_of_live (live_pos_of_accept hop)
  have hzero : live { s with accepts := s.accepts.eraseIdx 0, poolThreads := poolThreads } = 0 := by
    simp [live, haccepts, hcount]
  refine ⟨hs.serving.congr haccepting rfl rfl, by omega, hs.numbered, hs.ids, op.held, ?_, ?_⟩
  · rw [haccount]
    simp [inFlight, haccepts, served]
  · exact Or.inr ⟨⟨haccepting, hzero⟩, hheld⟩

/-- The arrival of the only accept gets its client. -/
lemma Accounted.create {i : ℕ} {socket : List UInt8} (hs : Accounted history s)
    (hop : s.accepts[i]? = some (.createClient socket)) :
    Accounted history { s with
      accepts := s.accepts.eraseIdx i
      clientsCounter := s.clientsCounter + 1
      connections := s.connections ++ [⟨.subscribed (s.clientsCounter + 1) socket, .start⟩] } := by
  have haccepting := isAccepting_of_accept hs.serving hop
  obtain ⟨rfl, haccepts, hcount⟩ := hs.accepts_eq hop
  have haccount := hs.account_of_live (live_pos_of_accept hop)
  have hid : s.clientsCounter + 1 = UInt64.ofNat (s.connections.length + 1) := by
    rw [hs.numbered, UInt64.ofNat_add]
    rfl
  refine ⟨hs.serving.congr haccepting rfl rfl, ?_, ?_, fun k c hc => ?_, [], ?_, Or.inl ?_⟩
  · simp [live, haccepts, hcount, Connection.isLive]
  · simpa using hid
  · rcases Core.getElem?_concat_eq_some.mp hc with hc | ⟨rfl, rfl⟩
    · exact hs.ids k c hc
    · exact hid
  · rw [haccount]
    simp [inFlight, haccepts, served, AcceptOp.held, Connection.arrival, Session.subscribed,
      AsyncTcpClient.stream, AsyncTcpClient.init]
  · simp [inFlight, haccepts]

lemma served_put {k : ℕ} {c d : Connection} (hc : s.connections[k]? = some c)
    (hstream : d.session.client.stream = c.session.client.stream) :
    (s.put k d).served = s.served := by
  obtain ⟨l, r, hconnections, hset⟩ := Core.exists_split_set hc
  show (s.connections.set k d).map Connection.arrival = s.connections.map Connection.arrival
  rw [hset, hconnections]
  simp [Connection.arrival, hstream]

lemma Accounted.ids_put {k : ℕ} {c d : Connection} (hs : Accounted history s)
    (hc : s.connections[k]? = some c) (hid : d.session.id = c.session.id) :
    ∀ j e, (s.put k d).connections[j]? = some e → e.session.id = UInt64.ofNat (j + 1) := by
  intro j e he
  rcases (Core.getElem?_set_eq_some hc).mp he with ⟨rfl, rfl⟩ | ⟨_, he⟩
  · rw [hid]
    exact hs.ids j c hc
  · exact hs.ids j e he

/-- A connection moves on and keeps its socket. -/
lemma Accounted.put {k : ℕ} {c d : Connection} {clients : Core.OrderedMap UInt64 ℕ}
    {poolThreads : ℕ} (hs : Accounted history s) (hc : s.connections[k]? = some c)
    (hid : d.session.id = c.session.id)
    (hstream : d.session.client.stream = c.session.client.stream) (hlive : d.isLive = c.isLive) :
    Accounted history { s.put k d with clients := clients, poolThreads := poolThreads } := by
  have haccepting := isAccepting_of_connection hs.serving hc
  have hlive' : (s.put k d).live = s.live := live_put hc hlive
  obtain ⟨rest, hrest, haccount⟩ := hs.account
  refine ⟨hs.serving.congr haccepting rfl rfl, ?_, ?_, hs.ids_put hc hid, rest, ?_, ?_⟩
  · exact hlive'.trans_le hs.live_le
  · show s.clientsCounter = UInt64.ofNat (s.connections.set k d).length
    rw [List.length_set]
    exact hs.numbered
  · exact hrest.trans (congrArg (· ++ rest) (served_put hc hstream).symm)
  · apply haccount.imp_right
    rintro ⟨⟨_, hzero⟩, hlen⟩
    exact ⟨⟨haccepting, hlive'.trans hzero⟩, hlen⟩

/-- `OnNewClientAccepted` ends with the next accept. -/
lemma Accounted.nextAccept {k : ℕ} {c : Connection} (hs : Accounted history s)
    (hc : s.connections[k]? = some c) (hat : c.accepting = .acceptNext) :
    Accounted history { s.put k { c with accepting := .returned } with
      accepts := s.accepts ++ [.pending] } := by
  have haccepting := isAccepting_of_connection hs.serving hc
  have hcount := countP_set_returned hc hat
  have haccount := hs.account_of_live
    (live_pos_of_connection hc (by rw [Connection.isLive, hat]; rfl))
  have hserved : (s.put k { c with accepting := .returned }).served = s.served :=
    served_put hc rfl
  have hle := hs.live_le
  refine ⟨hs.serving.congr haccepting rfl rfl, ?_, ?_, hs.ids_put hc rfl, s.inFlight, ?_, ?_⟩
  · simp only [live, Server.put, List.length_append, List.length_singleton] at hle ⊢
    omega
  · show s.clientsCounter = UInt64.ofNat (s.connections.set k _).length
    rw [List.length_set]
    exact hs.numbered
  · exact haccount.trans (congrArg (· ++ s.inFlight) hserved.symm)
  · left
    simp [inFlight, AcceptOp.held]

end One

/-! ### Steps -/

/-- Every step keeps the account. -/
lemma Accounted.step {history : List Arrival} {s t : Server} {a : ServerLabel}
    (hs : Accounted history s) (h : s.step a = some t) :
    Accounted (history ++ arrivals [a]) t := by
  have hserving := hs.serving.step h
  have hold : ∀ {t}, arrivals [a] = [] → Accounted history t →
      Accounted (history ++ arrivals [a]) t := by
    intro t hnone ht
    rwa [hnone, List.append_nil]
  cases ServerRule.of_step h with
  | startup hlisten haccept =>
    apply hold rfl
    exact hs.congr hserving haccept rfl rfl rfl
  | startedBefore hat hlisten =>
    rw [hs.serving.listening, hat] at hlisten
    cases hlisten
  | firstAccept hat hlisten =>
    -- nothing has arrived yet
    obtain ⟨haccepts, hconnections⟩ := hs.serving.quiet (by rw [isAccepting, hat]; rfl)
    obtain ⟨rest, hrest, rfl | ⟨⟨haccepting, -⟩, -⟩⟩ := hs.account
    · apply hold rfl
      refine ⟨hserving, ?_, hs.numbered, hs.ids, [], ?_, Or.inl ?_⟩
      · simp [live, haccepts, hconnections]
      · simpa [inFlight, haccepts, served] using hrest
      · simp [inFlight, haccepts, AcceptOp.held]
    · rw [isAccepting, hat] at haccepting
      cases haccepting
  | completed hop => exact hs.set hop rfl
  | failed hop => exact hold rfl (hs.erase hop rfl)
  | unheard hop _ => exact hold rfl (hs.erase hop rfl)
  | entered hop _ => exact hs.set hop rfl
  | thrown hop => exact hold rfl (hs.erase hop rfl)
  | logged hop => exact hs.set hop rfl
  | created hop => exact hold rfl (hs.create hop)
  | started hc hat hsession =>
    apply hold rfl
    refine hs.put hc (Session.id_of_step hsession) (Session.stream_of_step hsession) ?_
    rw [Connection.isLive, Connection.isLive, hat]
    rfl
  | emplaced hc hat =>
    apply hold rfl
    refine hs.put hc rfl rfl ?_
    rw [Connection.isLive, Connection.isLive, hat]
    rfl
  | nextAccept hc hat _ => exact hold rfl (hs.nextAccept hc hat)
  | noAccept hc hat hlisten =>
    rw [isStarted_of_isAccepting hs.serving (isAccepting_of_connection hs.serving hc)] at hlisten
    cases hlisten
  | erased hc _ hsession =>
    apply hold rfl
    exact hs.put hc (Session.id_of_step hsession) (Session.stream_of_step hsession) rfl
  | session hc hsession _ =>
    apply hold rfl
    exact hs.put hc (Session.id_of_step hsession) (Session.stream_of_step hsession) rfl

/-- Without an accept there is no arrival and no new client. -/
lemma Deaf.step {s t : Server} {a : ServerLabel} (hdeaf : s.Deaf) (h : s.step a = some t) :
    t.Deaf ∧ arrivals [a] = [] ∧ t.connections.length = s.connections.length := by
  obtain ⟨haccepting, hzero⟩ := hdeaf
  have hno : ∀ {i : ℕ} {op : AcceptOp}, s.accepts[i]? = some op → False := fun hop => by
    have hpos := live_pos_of_accept hop
    omega
  have hreturned : ∀ {k : ℕ} {c : Connection}, s.connections[k]? = some c →
      c.accepting = .returned := fun {k c} hc => by
    by_contra hlive
    have hpos := live_pos_of_connection hc (by simpa [Connection.isLive] using hlive)
    omega
  cases ServerRule.of_step h with
  | startup _ haccept => exact ⟨⟨haccept.trans haccepting, hzero⟩, rfl, rfl⟩
  | startedBefore hat _ =>
    rw [isAccepting, hat] at haccepting
    cases haccepting
  | firstAccept hat _ =>
    rw [isAccepting, hat] at haccepting
    cases haccepting
  | completed hop => exact (hno hop).elim
  | failed hop => exact (hno hop).elim
  | unheard hop _ => exact (hno hop).elim
  | entered hop _ => exact (hno hop).elim
  | thrown hop => exact (hno hop).elim
  | logged hop => exact (hno hop).elim
  | created hop => exact (hno hop).elim
  | started hc hat _ => exact absurd ((hreturned hc).symm.trans hat) (by simp)
  | emplaced hc hat => exact absurd ((hreturned hc).symm.trans hat) (by simp)
  | nextAccept hc hat _ => exact absurd ((hreturned hc).symm.trans hat) (by simp)
  | noAccept hc hat _ => exact absurd ((hreturned hc).symm.trans hat) (by simp)
  | @erased k c session _ _ hc _ _ =>
    have hlive : (s.put k { c with session := session }).live = s.live := live_put hc rfl
    exact ⟨⟨haccepting, hlive.trans hzero⟩, rfl, List.length_set⟩
  | @session k c session _ _ hc _ _ =>
    have hlive : (s.put k { c with session := session }).live = s.live := live_put hc rfl
    exact ⟨⟨haccepting, hlive.trans hzero⟩, rfl, List.length_set⟩

/-! ### Runs -/

lemma arrivals_cons (a : ServerLabel) (as : List ServerLabel) :
    arrivals (a :: as) = arrivals [a] ++ arrivals as := by
  simp only [arrivals, ← List.filterMap_append, List.singleton_append]

lemma Accounted.run {history : List Arrival} {s t : Server} {as : List ServerLabel}
    (hs : Accounted history s) (hrun : Core.run Server.step s as = some t) :
    Accounted (history ++ arrivals as) t := by
  induction as generalizing s history with
  | nil =>
    obtain rfl := Option.some.inj hrun
    rwa [arrivals, List.filterMap_nil, List.append_nil]
  | cons a as ih =>
    obtain ⟨u, hu, hrest⟩ := Core.run_cons_eq_some.mp hrun
    rw [arrivals_cons, ← List.append_assoc]
    exact ih (hs.step hu) hrest

lemma Deaf.run {s t : Server} {as : List ServerLabel} (hdeaf : s.Deaf)
    (hrun : Core.run Server.step s as = some t) :
    arrivals as = [] ∧ t.connections.length = s.connections.length := by
  induction as generalizing s with
  | nil =>
    obtain rfl := Option.some.inj hrun
    exact ⟨rfl, rfl⟩
  | cons a as ih =>
    obtain ⟨u, hu, hrest⟩ := Core.run_cons_eq_some.mp hrun
    obtain ⟨hdeaf', hnone, hlength⟩ := hdeaf.step hu
    obtain ⟨harrivals, hlength'⟩ := ih hdeaf' hrest
    exact ⟨by rw [arrivals_cons, hnone, harrivals]; rfl, hlength'.trans hlength⟩

lemma length_inFlight_le {s : Server} (hlive : s.live ≤ 1) : s.inFlight.length ≤ 1 := by
  have hle : s.accepts.length ≤ 1 := (Nat.le_add_right _ _).trans hlive
  rw [inFlight]
  match haccepts : s.accepts with
  | [] => exact Nat.zero_le 1
  | [op] => cases op <;> simp [AcceptOp.held]
  | _ :: _ :: _ => simp [haccepts] at hle

/-- At any point of any run, the clients are the arrivals in their order, numbered from 1 on, and at
most the last arrival has no client: its handler is about to make one, or it is lost and no accept
completes and no client is made ever after. -/
theorem arrivals_eq_served {threadsCount : ℕ} {as : List ServerLabel} {s : Server}
    (hrun : Core.run step (init threadsCount) as = some s) :
    (∀ k c, s.connections[k]? = some c → c.session.id = UInt64.ofNat (k + 1)) ∧
      (arrivals as = s.served ++ s.inFlight ∧ s.inFlight.length ≤ 1 ∨
        ∃ lost, arrivals as = s.served ++ [lost] ∧
          ∀ bs t, Core.run step s bs = some t →
            arrivals bs = [] ∧ t.connections.length = s.connections.length) := by
  have hs := (accounted_init threadsCount).run hrun
  rw [List.nil_append] at hs
  refine ⟨hs.ids, ?_⟩
  obtain ⟨rest, hrest, rfl | ⟨hdeaf, hlength⟩⟩ := hs.account
  · exact Or.inl ⟨hrest, length_inFlight_le hs.live_le⟩
  · obtain ⟨lost, rfl⟩ := List.length_eq_one_iff.mp hlength
    refine Or.inr ⟨lost, hrest, fun bs t hbs => ?_⟩
    exact hdeaf.run hbs

/-- A first client, and a second peer that is gone before its endpoint is logged. -/
theorem arrivals_eq_served_lost :
    let as := List.replicate 6 (.startup ⟨false, false, false⟩) ++ [.complete 0 (.ok [65]),
      .handle 0 false, .handle 0 false, .handle 0 false, .accepted 0, .accepted 0, .accepted 0,
      .complete 0 (.ok [66]), .handle 0 false, .handle 0 true]
    ∃ s, Core.run step (init 1) as = some s ∧
      (∀ k c, s.connections[k]? = some c → c.session.id = UInt64.ofNat (k + 1)) ∧
      (arrivals as = s.served ++ s.inFlight ∧ s.inFlight.length ≤ 1 ∨
        ∃ lost, arrivals as = s.served ++ [lost] ∧
          ∀ bs t, Core.run step s bs = some t →
            arrivals bs = [] ∧ t.connections.length = s.connections.length) :=
  ⟨_, rfl, @arrivals_eq_served 1 _ _ rfl⟩

end Server

end EzServer.Application
