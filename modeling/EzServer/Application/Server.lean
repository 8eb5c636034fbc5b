import EzServer.Core.OrderedMap
import EzServer.Net.AsyncTcpListener
import EzServer.Application.Session

/-!
# The server

The threads of a running server, interleaved statement by statement: the main thread in
`Application::Startup`, the accepts of the listener with `HandleAcceptedConnections` and
`OnNewClientAccepted`, and the sessions of the clients that were accepted. Handlers may overlap
without bound, as they may in a pool that is large enough.
-/

namespace EzServer.Application

open Net

/-- The next statement of `Startup`. -/
inductive StartupStatement where
  /-- The loop that starts the pool threads, with `left` of them to go. -/
  | startThread (left : ℕ)
  /-- `Initialize` -/
  | initializeListener
  /-- `Start`, up to `is_started_.store(true)` -/
  | listen
  /-- `AcceptNext` in `Start` -/
  | acceptNext
  /-- `NewConnectionAccepted += OnNewClientAccepted` -/
  | subscribe
  | returned (result : Bool)
  deriving DecidableEq, Repr

/-- An accept, from `async_accept` to the client that `OnNewClientAccepted` makes of it. A socket is
given by the bytes that its peer will send. -/
inductive AcceptOp where
  | pending
  /-- The completion is queued. -/
  | completed (result : Except ErrorCode (List UInt8))
  /-- `OnNewClientAccepted` logs `remote_endpoint()`. -/
  | logEndpoint (socket : List UInt8)
  /-- It creates the client, numbers it and subscribes to its events. -/
  | createClient (socket : List UInt8)

/-- The next statement of `OnNewClientAccepted` once it has a client. -/
inductive AcceptedStatement where
  | start
  | emplace
  | acceptNext
  | returned
  deriving DecidableEq, Repr

/-- An accepted client with the call of `OnNewClientAccepted` that made it. -/
structure Connection where
  session : Session
  accepting : AcceptedStatement
  deriving DecidableEq, Repr

structure Server where
  startup : StartupStatement
  /-- The pool tasks inside `io_.run()`. -/
  poolThreads : ℕ
  listener : AsyncTcpListener
  /-- `OnNewClientAccepted` is subscribed to `NewConnectionAccepted`. -/
  subscribed : Bool
  accepts : List AcceptOp
  /-- `clients_counter` -/
  clientsCounter : UInt64
  connections : List Connection
  /-- `clients_`, with the index of a connection for its `weak_ptr`. -/
  clients : Core.OrderedMap UInt64 ℕ

inductive ServerLabel where
  /-- The next statement of `Startup`. -/
  | startup (calls : ListenCalls)
  /-- The `i`-th accept completes. -/
  | complete (i : ℕ) (result : Except ErrorCode (List UInt8))
  /-- The next step of the handler of the `i`-th accept; `throws` is for `remote_endpoint()`. -/
  | handle (i : ℕ) (throws : Bool)
  /-- The next statement of `OnNewClientAccepted` for the `k`-th connection. -/
  | accepted (k : ℕ)
  | session (k : ℕ) (l : SessionLabel)

/-- The step takes up a queued completion. -/
def SessionLabel.isCompletion : SessionLabel → Bool
  | .client (.read _ .headerHandler) | .client (.read _ .bodyHandler)
  | .client (.handleWrite _) => true
  | _ => false

/-! ### Client ids -/

instance asymmUInt64 : @Std.Asymm UInt64 (· < ·) := ⟨fun _ _ h h' => (UInt64.lt_asymm h h' : False)⟩

instance isOrderConnectedUInt64 : IsOrderConnected UInt64 (· < ·) :=
  ⟨fun a b c h => by
    simp only [UInt64.lt_iff_toNat_lt] at h ⊢
    omega⟩

lemma eq_of_equivalent {a b : UInt64} (h : Core.Equivalent a b) : a = b :=
  UInt64.le_antisymm (UInt64.not_lt.mp h.2) (UInt64.not_lt.mp h.1)

/-! ### Steps -/

namespace Server

def init (threadsCount : ℕ) : Server where
  startup := .startThread threadsCount
  poolThreads := 0
  listener := .init
  subscribed := false
  accepts := []
  clientsCounter := 0
  connections := []
  clients := .empty

/-- `AcceptNext`; `none` for its exception. -/
def acceptNext (s : Server) : Option Server :=
  if s.listener.isStarted then some { s with accepts := s.accepts ++ [.pending] } else none

/-- The next statement of `Startup`. -/
def stepStartup (s : Server) (calls : ListenCalls) : Option Server :=
  match s.startup with
  | .startThread (left + 1) =>
    some { s with startup := .startThread left, poolThreads := s.poolThreads + 1 }
  | .startThread 0 => some { s with startup := .initializeListener }
  | .initializeListener =>
    let (result, listener) := s.listener.initializeAcceptor
    some { s with listener := listener, startup := if result then .listen else .returned false }
  | .listen =>
    if s.listener.isStarted then some { s with startup := .subscribe }
    else
      let (result, listener) := s.listener.listen calls
      some { s with
        listener := listener
        startup := if result then .acceptNext else .returned false }
  | .acceptNext =>
    match s.acceptNext with
    | some s => some { s with startup := .subscribe }
    | none => some { s with startup := .returned false }
  | .subscribe => some { s with subscribed := true, startup := .returned true }
  | .returned _ => none

/-- The next step of the handler of an accept. -/
def handle (s : Server) (i : ℕ) (throws : Bool) : AcceptOp → Option Server
  | .pending => none
  | .completed (.error _) =>
    -- the error is logged
    if 0 < s.poolThreads then some { s with accepts := s.accepts.eraseIdx i } else none
  | .completed (.ok socket) =>
    if 0 < s.poolThreads then
      if s.subscribed then some { s with accepts := s.accepts.set i (.logEndpoint socket) }
      else some { s with accepts := s.accepts.eraseIdx i }
    else none
  | .logEndpoint socket =>
    if throws then
      some { s with accepts := s.accepts.eraseIdx i, poolThreads := s.poolThreads - 1 }
    else some { s with accepts := s.accepts.set i (.createClient socket) }
  | .createClient socket =>
    let id := s.clientsCounter + 1
    some { s with
      accepts := s.accepts.eraseIdx i
      clientsCounter := id
      connections := s.connections ++ [⟨.subscribed id socket, .start⟩] }

/-- Put a connection back in its place. -/
def put (s : Server) (k : ℕ) (c : Connection) : Server :=
  { s with connections := s.connections.set k c }

/-- The next statement of `OnNewClientAccepted` once it has a client. -/
def stepAccepted (s : Server) (k : ℕ) (c : Connection) : Option Server :=
  match c.accepting with
  | .start => do
    let session ← c.session.step (.client .start)
    return s.put k ⟨session, .emplace⟩
  | .emplace =>
    some { s.put k { c with accepting := .acceptNext } with
      clients := s.clients.emplace c.session.id k }
  | .acceptNext =>
    match (s.put k { c with accepting := .returned }).acceptNext with
    | some s => some s
    | none =>
      some { s.put k { c with accepting := .returned } with poolThreads := s.poolThreads - 1 }
  | .returned => none

/-- A step of a client that has been started; a completion needs a pool thread. -/
def stepSession (s : Server) (k : ℕ) (c : Connection) (l : SessionLabel) : Option Server :=
  if c.accepting = .start || l.isCompletion && s.poolThreads == 0 then none
  else do
    let session ← c.session.step l
    let s' := s.put k { c with session := session }
    match c.session.closing, l with
    | some (.erase _), .closed _ => return { s' with clients := s.clients.erase c.session.id }
    | some .logEndpoint, .closed true => return { s' with poolThreads := s.poolThreads - 1 }
    | _, .commandThrows => return { s' with poolThreads := s.poolThreads - 1 }
    | _, _ => return s'

def step (s : Server) : ServerLabel → Option Server
  | .startup calls => s.stepStartup calls
  | .complete i result =>
    match s.accepts[i]? with
    | some .pending => some { s with accepts := s.accepts.set i (.completed result) }
    | _ => none
  | .handle i throws => do
    let op ← s.accepts[i]?
    s.handle i throws op
  | .accepted k => do
    let c ← s.connections[k]?
    s.stepAccepted k c
  | .session k l => do
    let c ← s.connections[k]?
    s.stepSession k c l

end Server

end EzServer.Application
