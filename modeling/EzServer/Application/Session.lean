import EzServer.Net.ReadChain

/-!
# A client and the application

A session is a client together with the application's `OnConnectionClosed`, which the read handler
that raises `ConnectionClosed` calls and which here runs one statement at a time, so that other
threads may step in between.
-/

namespace EzServer.Application

open Net Net.AsyncTcpClient

/-- Where `OnConnectionClosed` stands. -/
inductive ClosedStatement where
  /-- `clients_.erase(client->Id())` -/
  | erase (err : ErrorCode)
  /-- `if (client->Socket()->is_open())` -/
  | checkOpen (err : ErrorCode)
  /-- The log of `remote_endpoint()`. -/
  | logEndpoint
  /-- `client->Stop()` -/
  | stop
  | returned
  deriving DecidableEq, Repr

structure Session where
  /-- The `Id` of the client. -/
  id : UInt64
  client : AsyncTcpClient
  /-- The call of `OnConnectionClosed`, once there is one. -/
  closing : Option ClosedStatement
  deriving DecidableEq, Repr

inductive SessionLabel where
  | client (l : Label)
  /-- The next statement of `OnConnectionClosed`; `throws` is for `remote_endpoint()`. -/
  | closed (throws : Bool)
  /-- A command throws past `OnMessageReceived`. -/
  | commandThrows
  deriving DecidableEq, Repr

namespace Session

/-- A client on an open socket that the application has subscribed to and not yet started. -/
def subscribed (id : UInt64) (stream : List UInt8) : Session where
  id := id
  client := .init true stream
  closing := none

/-- The same client after `Start`. -/
def accepted (id : UInt64) (stream : List UInt8) : Session where
  id := id
  client := .connected stream
  closing := none

/-- The error with which `ConnectionClosed` was raised. -/
def closeError (c : AsyncTcpClient) : Option ErrorCode :=
  c.events.findSome? fun
    | .connectionClosed err => some err
    | _ => none

/-- The client has taken a step; `OnConnectionClosed` is called once `ConnectionClosed` is
raised. -/
def advance (s : Session) (client : AsyncTcpClient) : Session :=
  { s with client := client, closing := s.closing.or ((closeError client).map .erase) }

/-- The next statement of `OnConnectionClosed`; the erasure itself is up to the caller. -/
def onConnectionClosed (s : Session) (throws : Bool) : ClosedStatement → Option Session
  | .erase err => some { s with closing := some (.checkOpen err) }
  | .checkOpen err =>
    some { s with
      closing := some (if s.client.isOpen then if err = .eof then .logEndpoint else .stop
        else .returned) }
  | .logEndpoint => some { s with closing := some (if throws then .returned else .stop) }
  | .stop => some { s with client := (s.client.stop none).2, closing := some .returned }
  | .returned => none

def step (s : Session) : SessionLabel → Option Session
  | .client (.read i .closeReturned) => do
    let client ← s.client.step (.read i .closeReturned)
    if s.closing = some .returned then return { s with client := client } else none
  | .client l => do
    let client ← s.client.step l
    return s.advance client
  | .closed throws => do
    let statement ← s.closing
    s.onConnectionClosed throws statement
  | .commandThrows =>
    if s.client.reads = [.raisingMessageRecieved] then
      some { s with client := { s.client with reads := [] } }
    else none

/-- `ConnectionClosed` has been raised. -/
def raised (s : Session) : Bool := s.client.events.any Event.isConnectionClosed

/-- The client has been erased from `clients_`. -/
def erased (s : Session) : Bool :=
  match s.closing with
  | none | some (.erase _) => false
  | _ => true

/-- `OnConnectionClosed` is in the middle of its execution. -/
def isClosing (s : Session) : Bool :=
  match s.closing with
  | none | some .returned => false
  | _ => true

/-! ### Rules -/

/-- The steps of a session. -/
inductive SessionRule (s : Session) : SessionLabel → Session → Prop where
  /-- The read handler that raised `ConnectionClosed` returns. -/
  | returned {i : ℕ} {client : AsyncTcpClient}
      (hclient : s.client.step (.read i .closeReturned) = some client)
      (hclosing : s.closing = some .returned) :
      SessionRule s (.client (.read i .closeReturned)) { s with client := client }
  | client {l : Label} {client : AsyncTcpClient} (hl : ∀ i, l ≠ .read i .closeReturned)
      (hclient : s.client.step l = some client) : SessionRule s (.client l) (s.advance client)
  | closed {throws : Bool} {statement : ClosedStatement} {s' : Session}
      (hclosing : s.closing = some statement)
      (hs' : s.onConnectionClosed throws statement = some s') : SessionRule s (.closed throws) s'
  | commandThrew (hreads : s.client.reads = [.raisingMessageRecieved]) :
      SessionRule s .commandThrows { s with client := { s.client with reads := [] } }

lemma SessionRule.of_step {s s' : Session} {l : SessionLabel} (h : s.step l = some s') :
    SessionRule s l s' := by
  unfold step at h
  split at h
  · simp only [Option.bind_eq_bind, Option.bind_eq_some_iff] at h
    obtain ⟨client, hclient, h⟩ := h
    split_ifs at h with hclosing
    obtain rfl := Option.some.inj h
    exact .returned hclient hclosing
  · next l hnot =>
    simp only [Option.bind_eq_bind, Option.bind_eq_some_iff] at h
    obtain ⟨client, hclient, h⟩ := h
    obtain rfl := Option.some.inj h
    exact .client (fun i hl => hnot i hl) hclient
  · simp only [Option.bind_eq_bind, Option.bind_eq_some_iff] at h
    obtain ⟨statement, hclosing, h⟩ := h
    exact .closed hclosing h
  · split_ifs at h with hreads
    obtain rfl := Option.some.inj h
    exact .commandThrew hreads

/-! ### Events -/

lemma raised_eq_false_iff {s : Session} : s.raised = false ↔ NoClose s.client.events := by
  simp [raised, NoClose]

lemma isSome_closeError (c : AsyncTcpClient) :
    (closeError c).isSome = c.events.any Event.isConnectionClosed := by
  rw [Bool.eq_iff_iff, closeError, List.isSome_findSome?, List.any_eq_true, List.any_eq_true]
  refine exists_congr fun e => and_congr_right fun _ => ?_
  cases e <;> simp [Event.isConnectionClosed]

/-- The client is there to read, and the application knows what has been raised. -/
structure Linked (s : Session) : Prop where
  chain : OneChain s.client
  raised_eq : s.raised = s.closing.isSome

lemma linked_subscribed (id : UInt64) (stream : List UInt8) : Linked (subscribed id stream) :=
  ⟨(fresh_init true stream).oneChain, rfl⟩

lemma raised_of_prefix {s t : Session} (h : s.client.events <+: t.client.events)
    (hraised : s.raised = true) : t.raised = true := by
  obtain ⟨e, he, hclose⟩ := List.any_eq_true.mp hraised
  exact List.any_eq_true.mpr ⟨e, h.subset he, hclose⟩

/-- A step of the client keeps the session linked. -/
lemma Linked.advance {s : Session} {client : AsyncTcpClient} {a : Label} (hs : Linked s)
    (h : s.client.step a = some client) : Linked (s.advance client) where
  chain := hs.chain.step h
  raised_eq := by
    have hsome : (closeError client).isSome = (s.advance client).raised := isSome_closeError client
    cases hclosing : s.closing with
    | none => exact hsome.symm.trans (by simp [Session.advance, hclosing])
    | some statement =>
      have hraised : s.raised = true := by rw [hs.raised_eq, hclosing]; rfl
      have hraised' : (s.advance client).raised = true :=
        raised_of_prefix (hs.chain.events_prefix h) hraised
      apply hraised'.trans
      simp [Session.advance, hclosing]

lemma linked_onConnectionClosed {s s' : Session} {throws : Bool} {statement : ClosedStatement}
    (hs : Linked s) (hclosing : s.closing = some statement)
    (h : s.onConnectionClosed throws statement = some s') : Linked s' := by
  have hraised : s.raised = true := by rw [hs.raised_eq, hclosing]; rfl
  cases statement with
  | stop =>
    obtain rfl := Option.some.inj h
    have hstop : s.client.step .stop = some (s.client.stop none).2 := rfl
    exact ⟨hs.chain.step hstop, raised_of_prefix (hs.chain.events_prefix hstop) hraised⟩
  | returned => cases h
  | _ =>
    obtain rfl := Option.some.inj h
    exact ⟨hs.chain, hraised⟩

/-- Every step of a session keeps it linked. -/
lemma Linked.step {s s' : Session} {l : SessionLabel} (hs : Linked s) (h : s.step l = some s') :
    Linked s' := by
  cases SessionRule.of_step h with
  | @returned i client hclient hclosing =>
    have hraised : s.raised = true := by rw [hs.raised_eq, hclosing]; rfl
    have hraised' : ({ s with client := client } : Session).raised = true :=
      raised_of_prefix (hs.chain.events_prefix hclient) hraised
    exact ⟨hs.chain.step hclient, hraised'.trans (by simp [hclosing])⟩
  | client _ hclient => exact hs.advance hclient
  | closed hclosing hs' => exact linked_onConnectionClosed hs hclosing hs'
  | commandThrew hreads =>
    refine ⟨⟨by simp, fun ho hr => ?_, by simp, hs.chain.closeLast⟩, hs.raised_eq⟩
    have hfresh := hs.chain.fresh ho hr
    exact ⟨rfl, hfresh.events, hfresh.buffer, hfresh.received⟩

/-! ### Ids and the registry -/

lemma erased_advance (s : Session) (client : AsyncTcpClient) :
    (s.advance client).erased = s.erased := by
  cases hclosing : s.closing with
  | none => cases hclose : closeError client <;> simp [erased, Session.advance, hclosing, hclose]
  | some statement => simp [erased, Session.advance, hclosing]

lemma id_of_step {s s' : Session} {l : SessionLabel} (h : s.step l = some s') : s'.id = s.id := by
  cases SessionRule.of_step h with
  | returned _ _ => rfl
  | client _ _ => rfl
  | @closed throws statement _ _ hs' =>
    cases statement with
    | returned => cases hs'
    | _ => obtain rfl := Option.some.inj hs'; rfl
  | commandThrew _ => rfl

lemma erased_of_erase {s s' : Session} {throws : Bool} {err : ErrorCode}
    (hclosing : s.closing = some (.erase err)) (h : s.step (.closed throws) = some s') :
    s.erased = false ∧ s'.erased = true := by
  simp only [Session.step, hclosing, Option.bind_eq_bind, Option.bind_some] at h
  obtain rfl := Option.some.inj h
  exact ⟨by simp [erased, hclosing], rfl⟩

/-- Only the first statement of `OnConnectionClosed` erases the client. -/
lemma erased_of_step {s s' : Session} {l : SessionLabel} (h : s.step l = some s')
    (hl : ∀ throws, l = .closed throws → ∀ err, s.closing ≠ some (.erase err)) :
    s'.erased = s.erased := by
  cases SessionRule.of_step h with
  | returned _ _ => rfl
  | client _ _ => exact erased_advance s _
  | @closed throws statement _ hclosing hs' =>
    cases statement with
    | erase err => exact absurd hclosing (hl throws rfl err)
    | checkOpen err =>
      obtain rfl := Option.some.inj hs'
      simp only [erased, hclosing]
      split_ifs <;> rfl
    | logEndpoint =>
      obtain rfl := Option.some.inj hs'
      cases throws <;> simp [erased, hclosing]
    | stop =>
      obtain rfl := Option.some.inj hs'
      simp [erased, hclosing]
    | returned => cases hs'
  | commandThrew _ => rfl

end Session

end EzServer.Application
