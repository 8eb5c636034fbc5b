import EzServer.Application.ServerRules

/-!
# The registry of clients

`OnNewClientAccepted` starts a client before it puts it into `clients_`, so the read handlers may
raise `ConnectionClosed` and erase the client first. As long as no client is erased before it is
there and no id is given out twice, `clients_` holds exactly the clients that are not closed.
-/

namespace EzServer.Application

open Net

namespace Connection

/-- The client is or has been in `clients_`. -/
def registered (c : Connection) : Bool :=
  match c.accepting with
  | .acceptNext | .returned => true
  | _ => false

/-- The client should be in `clients_`. -/
def listed (c : Connection) : Bool := c.registered && !c.session.erased

/-- The client has been in `clients_` and was erased. -/
def gone (c : Connection) : Bool := c.registered && c.session.erased

end Connection

namespace Session

/-- The next statement of `OnConnectionClosed` erases the client. -/
def isErasing (s : Session) : Bool :=
  match s.closing with
  | some (.erase _) => true
  | _ => false

end Session

namespace Server

/-- A client is erased after it was put into `clients_`, and a new id is not in use. -/
def inOrder (s : Server) : ServerLabel → Bool
  | .session k (.closed _) =>
    (s.connections[k]?).all fun c => !c.session.isErasing || c.registered
  | .handle i _ =>
    match s.accepts[i]? with
    | some (.createClient _) =>
      s.connections.all fun c => c.session.id != s.clientsCounter + 1 || c.gone
    | _ => true
  | _ => true

/-- No `OnNewClientAccepted` and no `OnConnectionClosed` is in the middle of its execution. -/
def isIdle (s : Server) : Bool :=
  (s.accepts.all fun
    | .logEndpoint _ | .createClient _ => false
    | _ => true) &&
  s.connections.all fun c => c.accepting == .returned && !c.session.isClosing

/-- `clients_` holds exactly the accepted clients whose `ConnectionClosed` has not been raised. -/
def ExactRegistry (s : Server) : Prop :=
  s.isIdle = true → ∀ id, id ∈ s.clients.keys ↔
    ∃ c ∈ s.connections, c.session.id = id ∧ c.session.raised = false

/-- `clients_` with the connections it is about. -/
structure Registry (clients : Core.OrderedMap UInt64 ℕ) (connections : List Connection) :
    Prop where
  linked : ∀ c ∈ connections, c.session.Linked
  ordered : ∀ c ∈ connections, c.session.erased = true → c.registered = true
  keys : ∀ id, id ∈ clients.keys ↔ ∃ c ∈ connections, c.session.id = id ∧ c.listed = true
  distinct : connections.Pairwise fun c d =>
    c.session.id = d.session.id → c.gone = true ∨ d.gone = true

lemma Registry.exact {s : Server} (hs : Registry s.clients s.connections) : s.ExactRegistry := by
  intro hidle id
  have hc : ∀ c ∈ s.connections, c.listed = !c.session.raised := by
    intro c hc
    have hquiet := List.all_eq_true.mp (Bool.and_eq_true_iff.mp hidle).2 c hc
    obtain ⟨hat, hclosing⟩ : c.accepting = .returned ∧ c.session.isClosing = false := by
      simpa using hquiet
    have hraised := (hs.linked c hc).raised_eq
    rw [Session.isClosing] at hclosing
    split at hclosing
    · next h => simp [Connection.listed, Connection.registered, hat, Session.erased, hraised, h]
    · next h => simp [Connection.listed, Connection.registered, hat, Session.erased, hraised, h]
    · cases hclosing
  rw [hs.keys]
  refine exists_congr fun c => and_congr_right fun hmem => and_congr_right fun _ => ?_
  rw [hc c hmem]
  simp

/-! ### One connection moves -/

section Put

variable {clients : Core.OrderedMap UInt64 ℕ} {l r : List Connection} {c d : Connection}

lemma exists_mem_split {p : Connection → Prop} :
    (∃ e ∈ l ++ d :: r, p e) ↔ (∃ e ∈ l ++ r, p e) ∨ p d := by
  simp only [List.mem_append, List.mem_cons, or_and_right, exists_or, exists_eq_left, or_assoc]
  exact or_congr_right or_comm

/-- The keys stay right if the connection is listed as before. -/
lemma Registry.keys_put (hs : Registry clients (l ++ c :: r)) (hid : d.session.id = c.session.id)
    (hlisted : d.listed = c.listed) (id : UInt64) :
    id ∈ clients.keys ↔ ∃ e ∈ l ++ d :: r, e.session.id = id ∧ e.listed = true := by
  rw [hs.keys, exists_mem_split, exists_mem_split, hid, hlisted]

lemma Registry.keys_emplace (hs : Registry clients (l ++ c :: r)) {k : ℕ}
    (hid : d.session.id = c.session.id) (hc : c.listed = false) (hd : d.listed = true)
    (id : UInt64) :
    id ∈ (clients.emplace c.session.id k).keys ↔
      ∃ e ∈ l ++ d :: r, e.session.id = id ∧ e.listed = true := by
  rw [Core.OrderedMap.mem_keys_emplace fun _ _ => eq_of_equivalent, hs.keys, exists_mem_split,
    exists_mem_split, hid, hc, hd]
  grind

/-- An erased client is not listed under its id any more, and no other client is. -/
lemma Registry.keys_erase (hs : Registry clients (l ++ c :: r)) (hc : c.session.erased = false)
    (hd : d.listed = false) (id : UInt64) :
    id ∈ (clients.erase c.session.id).keys ↔
      ∃ e ∈ l ++ d :: r, e.session.id = id ∧ e.listed = true := by
  have hequiv : Core.Equivalent c.session.id id ↔ c.session.id = id :=
    ⟨eq_of_equivalent, fun h => h ▸ Core.OrderedMap.Equivalent.refl _⟩
  have hother : ∀ e ∈ l ++ r, e.listed = true → e.session.id ≠ c.session.id := by
    intro e he hlisted hid
    have hgone : e.gone = true ∨ c.gone = true := by
      obtain ⟨-, hcr, hlc⟩ := List.pairwise_append.mp hs.distinct
      rcases List.mem_append.mp he with he | he
      · exact hlc e he c List.mem_cons_self hid
      · exact (List.pairwise_cons.mp hcr).1 e he hid.symm |>.symm
    simp only [Connection.listed, Connection.gone, hc] at hlisted hgone
    simp_all
  rw [Core.OrderedMap.mem_keys_erase, hequiv, hs.keys, exists_mem_split, exists_mem_split, hd]
  constructor
  · rintro ⟨⟨e, he, hid, hlisted⟩ | ⟨hid, -⟩, hne⟩
    · exact Or.inl ⟨e, he, hid, hlisted⟩
    · exact absurd hid hne
  · rintro (⟨e, he, hid, hlisted⟩ | ⟨-, hfalse⟩)
    · exact ⟨Or.inl ⟨e, he, hid, hlisted⟩, fun hcid => hother e he hlisted (hid.trans hcid.symm)⟩
    · cases hfalse

lemma Registry.put {clients' : Core.OrderedMap UInt64 ℕ} (hs : Registry clients (l ++ c :: r))
    (hid : d.session.id = c.session.id) (hlinked : d.session.Linked)
    (hordered : d.session.erased = true → d.registered = true)
    (hgone : c.gone = true → d.gone = true)
    (hkeys : ∀ id, id ∈ clients'.keys ↔
      ∃ e ∈ l ++ d :: r, e.session.id = id ∧ e.listed = true) :
    Registry clients' (l ++ d :: r) := by
  have hmem : ∀ e ∈ l ++ d :: r, e = d ∨ e ∈ l ++ c :: r := by
    intro e he
    simp only [List.mem_append, List.mem_cons] at he ⊢
    tauto
  refine ⟨fun e he => ?_, fun e he => ?_, hkeys, ?_⟩
  · rcases hmem e he with rfl | he
    · exact hlinked
    · exact hs.linked e he
  · rcases hmem e he with rfl | he
    · exact hordered
    · exact hs.ordered e he
  · have hdistinct := hs.distinct
    simp only [List.pairwise_append, List.pairwise_cons, List.mem_cons, forall_eq_or_imp, hid]
      at hdistinct ⊢
    refine ⟨hdistinct.1, ⟨fun e he h => ?_, hdistinct.2.1.2⟩, fun e he => ⟨fun h => ?_, ?_⟩⟩
    · exact (hdistinct.2.1.1 e he h).imp_left hgone
    · exact ((hdistinct.2.2 e he).1 h).imp_right hgone
    · exact (hdistinct.2.2 e he).2

end Put

section Set

variable {clients : Core.OrderedMap UInt64 ℕ} {connections : List Connection} {k : ℕ}
  {c : Connection}

/-- A connection that is listed as before. -/
lemma Registry.set_same (hs : Registry clients connections) (hc : connections[k]? = some c)
    {d : Connection} (hid : d.session.id = c.session.id) (hlinked : d.session.Linked)
    (hregistered : d.registered = c.registered) (herased : d.session.erased = c.session.erased) :
    Registry clients (connections.set k d) := by
  have hordered := hs.ordered c (List.mem_of_getElem? hc)
  obtain ⟨l, r, rfl, hset⟩ := Core.exists_split_set hc
  rw [hset]
  refine hs.put hid hlinked ?_ ?_ (hs.keys_put hid ?_)
  · rwa [herased, hregistered]
  · simp [Connection.gone, herased, hregistered]
  · simp [Connection.listed, herased, hregistered]

lemma Registry.set_emplace (hs : Registry clients connections) (hc : connections[k]? = some c)
    (hat : c.accepting = .emplace) (j : ℕ) :
    Registry (clients.emplace c.session.id j)
      (connections.set k { c with accepting := .acceptNext }) := by
  have hlinked := hs.linked c (List.mem_of_getElem? hc)
  have hregistered : c.registered = false := by simp [Connection.registered, hat]
  -- a client that is not there yet has not been erased
  have herased : c.session.erased = false := by
    by_contra h
    have := hs.ordered c (List.mem_of_getElem? hc) (by simpa using h)
    simp [hregistered] at this
  obtain ⟨l, r, rfl, hset⟩ := Core.exists_split_set hc
  rw [hset]
  refine hs.put rfl hlinked (fun _ => rfl) ?_ (hs.keys_emplace rfl ?_ ?_)
  · simp [Connection.gone, herased]
  · simp [Connection.listed, hregistered]
  · simp [Connection.listed, Connection.registered, herased]

lemma Registry.set_erase (hs : Registry clients connections) (hc : connections[k]? = some c)
    {session : Session} (hid : session.id = c.session.id) (hlinked : session.Linked)
    (hregistered : c.registered = true) (hbefore : c.session.erased = false)
    (hafter : session.erased = true) :
    Registry (clients.erase c.session.id) (connections.set k { c with session := session }) := by
  obtain ⟨l, r, rfl, hset⟩ := Core.exists_split_set hc
  rw [hset]
  refine hs.put hid hlinked (fun _ => hregistered) ?_ (hs.keys_erase hbefore ?_)
  · simp [Connection.gone, hbefore]
  · simp [Connection.listed, hafter]

end Set

/-! ### Steps -/

lemma registry_init (threadsCount : ℕ) :
    Registry (init threadsCount).clients (init threadsCount).connections where
  linked := by simp [init]
  ordered := by simp [init]
  keys := by simp [init, Core.OrderedMap.empty, Core.OrderedMap.keys]
  distinct := List.Pairwise.nil

/-- A new client joins under an id that is not in use. -/
lemma Registry.created {clients : Core.OrderedMap UInt64 ℕ} {connections : List Connection}
    (hs : Registry clients connections) {id : UInt64} {socket : List UInt8}
    (hid : ∀ c ∈ connections, c.session.id = id → c.gone = true) :
    Registry clients (connections ++ [⟨.subscribed id socket, .start⟩]) where
  linked := by
    simp only [List.mem_append, List.mem_singleton, or_imp, forall_and, forall_eq]
    exact ⟨hs.linked, Session.linked_subscribed id socket⟩
  ordered := by
    simp only [List.mem_append, List.mem_singleton, or_imp, forall_and, forall_eq]
    exact ⟨hs.ordered, fun h => by cases h⟩
  keys := fun id' => by
    rw [hs.keys]
    simp [or_and_right, exists_or, Connection.listed, Connection.registered]
  distinct := by
    refine List.pairwise_append.mpr ⟨hs.distinct, List.pairwise_singleton _ _, ?_⟩
    intro c hc d hd h
    obtain rfl := List.mem_singleton.mp hd
    exact Or.inl (hid c hc h)

/-- Every step that is in order keeps the registry right. -/
lemma Registry.step {s t : Server} {a : ServerLabel} (hs : Registry s.clients s.connections)
    (horder : s.inOrder a = true) (h : s.step a = some t) : Registry t.clients t.connections := by
  cases ServerRule.of_step h with
  | startup _ _ => exact hs
  | startedBefore _ _ => exact hs
  | firstAccept _ _ => exact hs
  | completed _ => exact hs
  | failed _ => exact hs
  | unheard _ _ => exact hs
  | entered _ _ => exact hs
  | thrown _ => exact hs
  | logged _ => exact hs
  | created hop =>
    apply hs.created
    intro c hc hid
    simp only [inOrder, hop, List.all_eq_true] at horder
    simpa [hid] using horder c hc
  | @started k c session hc hat hsession =>
    have hlinked := hs.linked c (List.mem_of_getElem? hc)
    refine hs.set_same hc (Session.id_of_step hsession) (hlinked.step hsession) ?_
      (Session.erased_of_step hsession fun _ hl => by cases hl)
    simp [Connection.registered, hat]
  | emplaced hc hat => exact hs.set_emplace hc hat _
  | @nextAccept k c hc hat _ =>
    have hlinked := hs.linked c (List.mem_of_getElem? hc)
    exact hs.set_same hc rfl hlinked (by simp [Connection.registered, hat]) rfl
  | @noAccept k c hc hat _ =>
    have hlinked := hs.linked c (List.mem_of_getElem? hc)
    exact hs.set_same hc rfl hlinked (by simp [Connection.registered, hat]) rfl
  | @erased k c session throws err hc hclosing hsession =>
    have hlinked := hs.linked c (List.mem_of_getElem? hc)
    obtain ⟨hbefore, hafter⟩ := Session.erased_of_erase hclosing hsession
    have hregistered : c.registered = true := by
      simpa [inOrder, hc, Session.isErasing, hclosing] using horder
    exact hs.set_erase hc (Session.id_of_step hsession) (hlinked.step hsession) hregistered
      hbefore hafter
  | @session k c session l poolThreads hc hsession hclosing =>
    have hlinked := hs.linked c (List.mem_of_getElem? hc)
    exact hs.set_same hc (Session.id_of_step hsession) (hlinked.step hsession) rfl
      (Session.erased_of_step hsession hclosing)

/-! ### Runs -/

/-- In a run in which clients are erased after they were put into `clients_` and ids are not given
out twice, `clients_` is exact in every state. -/
theorem exactRegistry_of_inOrder {threadsCount : ℕ} {as : List ServerLabel}
    (has : Core.EveryStep step (fun s a => s.inOrder a = true) (init threadsCount) as) :
    Core.EveryState step ExactRegistry (init threadsCount) as :=
  (Core.everyState_of_everyStep
    (fun _ _ _ (hs : Registry _ _) horder h => Registry.step hs horder h)
    (registry_init threadsCount) has).imp fun _ hs => hs.exact

/-- A client that connects and disconnects while the server has one thread. -/
theorem exactRegistry_of_inOrder_one :
    Core.EveryState step ExactRegistry (init 1)
      [.startup ⟨false, false, false⟩, .startup ⟨false, false, false⟩,
        .startup ⟨false, false, false⟩, .startup ⟨false, false, false⟩,
        .startup ⟨false, false, false⟩, .startup ⟨false, false, false⟩, .complete 0 (.ok []),
        .handle 0 false, .handle 0 false, .handle 0 false, .accepted 0, .accepted 0, .accepted 0,
        .session 0 (.client (.read 0 (.receiveFail .eof))),
        .session 0 (.client (.read 0 .headerHandler)), .session 0 (.closed false),
        .session 0 (.closed false), .session 0 (.closed false), .session 0 (.closed false),
        .session 0 (.client (.read 0 .closeReturned))] :=
  exactRegistry_of_inOrder (by decide)

/-- The peer disconnects at once, and the client is erased before it is put into `clients_`. -/
theorem not_exactRegistry_of_early_close :
    ¬ ∀ (threadsCount : ℕ) (as : List ServerLabel) (s : Server),
      Core.run step (init threadsCount) as = some s → s.ExactRegistry := by
  intro h
  have hexact := h 2
    [.startup ⟨false, false, false⟩, .startup ⟨false, false, false⟩,
      .startup ⟨false, false, false⟩, .startup ⟨false, false, false⟩,
      .startup ⟨false, false, false⟩, .startup ⟨false, false, false⟩,
      .startup ⟨false, false, false⟩, .complete 0 (.ok []),
      .handle 0 false, .handle 0 false, .handle 0 false, .accepted 0,
      .session 0 (.client (.read 0 (.receiveFail .eof))),
      .session 0 (.client (.read 0 .headerHandler)), .session 0 (.closed false),
      .session 0 (.closed false), .session 0 (.closed false), .session 0 (.closed false),
      .session 0 (.client (.read 0 .closeReturned)), .accepted 0, .accepted 0] _ rfl
  have hkeys := (hexact (by decide) 1).mp (by decide)
  exact absurd hkeys (by decide)

end Server

end EzServer.Application
