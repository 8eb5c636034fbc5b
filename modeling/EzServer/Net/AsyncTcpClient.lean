import EzServer.Core.Machine
import EzServer.Net.Protocol

/-!
# A client connection

`AsyncTcpClient` as a step function: the calls `Start`, `Stop` and `Respond`, the arrival of bytes,
the completion of socket operations, and the runs of completion handlers on the client's strand.

Event handlers are not fixed: between `raisingMessageRecieved` (or `raisingConnectionClosed`) and
the return of the handlers any calls may happen, from inside the handlers or from other threads.
-/

namespace EzServer.Net

/-- An `async_send` that was initiated; `expected` is bound into its `HandleWrite`. It has been given
a pointer to its bytes, and what is there by the time they are sent is another matter. -/
structure SendOp where
  /-- The bytes that it was given. -/
  data : List UInt8
  expected : ℕ
  /-- What is in the buffer now. -/
  contents : List UInt8
  deriving DecidableEq, Repr

/-- The first `sent` bytes of the buffer are still those that it was given. -/
def SendOp.isIntact (op : SendOp) (sent : ℕ) : Bool := op.contents.take sent == op.data.take sent

/-- A queued `HandleWrite`. -/
structure WriteCompletion where
  err : Option ErrorCode
  sent : ℕ
  expected : ℕ
  deriving DecidableEq, Repr

/-- A link of a read chain, from the operation `StartRead` initiates to the end of its handlers. -/
inductive ReadOp where
  /-- `async_receive` of the header is pending. -/
  | receivingHeader
  /-- Its completion is queued. -/
  | headerReceived (err : Option ErrorCode) (rec : ℕ)
  /-- `async_read` of the body is pending and has transferred some bytes. -/
  | readingBody (msgLength : UInt32) (transferred : ℕ)
  /-- Its completion is queued. -/
  | bodyRead (msgLength : UInt32) (err : Option ErrorCode) (rec : ℕ)
  /-- The body handler runs the subscribers of `MessageRecieved`. -/
  | raisingMessageRecieved
  /-- The header handler has answered an empty message. -/
  | respondedEmpty
  /-- A handler runs the subscribers of `ConnectionClosed`. -/
  | raisingConnectionClosed (err : ErrorCode)
  deriving DecidableEq, Repr

/-- What the read handlers do that is seen from outside. -/
inductive Event where
  | messageRecieved (message : List UInt8)
  | respondedEmpty
  | connectionClosed (err : ErrorCode)
  deriving DecidableEq, Repr

/-- An `AsyncTcpClient` with the operations and completions in flight on its socket. -/
structure AsyncTcpClient where
  /-- `is_running_` -/
  isRunning : Bool
  /-- `client_socket_->is_open()` -/
  isOpen : Bool
  /-- `header_buffer_` -/
  headerBuffer : List UInt8
  /-- `buffer_` -/
  buffer : List UInt8
  /-- The read chains, each at its current link. -/
  reads : List ReadOp
  /-- The sends that have not completed, oldest first. -/
  sends : List SendOp
  /-- The write completions whose `HandleWrite` has not run. -/
  writes : List WriteCompletion
  /-- The bytes that left on the socket. -/
  wire : List UInt8
  /-- The bytes taken off the socket so far. -/
  received : List UInt8
  /-- The bytes that have arrived and are not yet read. -/
  available : List UInt8
  /-- The bytes of the peer that have not yet arrived. -/
  incoming : List UInt8
  /-- What the read handlers have done, oldest first. -/
  events : List Event
  deriving DecidableEq, Repr

/-- A step on one read chain. -/
inductive ReadLabel where
  /-- `async_receive` completes with `n` bytes. -/
  | receiveSome (n : ℕ)
  | receiveFail (err : ErrorCode)
  /-- `async_read` takes `n` bytes off the socket. -/
  | readSome (n : ℕ)
  | readFail (err : ErrorCode)
  | headerHandler
  | bodyHandler
  /-- The handler goes on to `StartRead` and returns. -/
  | resume
  /-- The subscribers of `ConnectionClosed` and the handler return. -/
  | closeReturned
  deriving DecidableEq, Repr

/-- A step of a client and its environment. -/
inductive Label where
  | start
  | stop
  | respond (code : ResponseCode) (message : List UInt8) (flags : UInt8)
  /-- The next `n` bytes of the peer become available. -/
  | arrive (n : ℕ)
  /-- A step of the `i`-th read chain. -/
  | read (i : ℕ) (l : ReadLabel)
  /-- The memory of the `i`-th buffer is used for something else. The header and mostly the message
  too are locals of a caller, who has returned by then. -/
  | overwrite (i : ℕ) (contents : List UInt8)
  /-- The oldest send completes after `sent` bytes. -/
  | send (sent : ℕ) (err : Option ErrorCode)
  /-- The `i`-th queued write completion runs. -/
  | handleWrite (i : ℕ)
  deriving DecidableEq, Repr

/-- The text `StartRead` answers an empty message with. -/
def emptyMessageText : List UInt8 :=
  "Empty message, ignored.".toList.map fun c => c.toNat.toUInt8

namespace AsyncTcpClient

/-- A client on a socket whose peer sends `incoming`, as its constructor leaves it. -/
def init (isOpen : Bool) (incoming : List UInt8) : AsyncTcpClient where
  isRunning := false
  isOpen := isOpen
  headerBuffer := List.replicate 8 0
  buffer := []
  reads := []
  sends := []
  writes := []
  wire := []
  received := []
  available := []
  incoming := incoming
  events := []

/-- The read operations that `StartRead` initiates. -/
def startRead (c : AsyncTcpClient) : List ReadOp :=
  if !c.isRunning || !c.isOpen then [] else [.receivingHeader]

/-- `Start` -/
def start (c : AsyncTcpClient) : Bool × AsyncTcpClient :=
  if c.isRunning then (false, c)
  else
    let c := { c with isRunning := true }
    (true, { c with reads := c.reads ++ c.startRead })

/-- The client of a fresh connection to a peer that sends `stream`, just started. -/
def connected (stream : List UInt8) : AsyncTcpClient := (init true stream).start.2

/-- `Stop`; `closeErr` is the error that `close` reports. -/
def stop (closeErr : Option ErrorCode) (c : AsyncTcpClient) : Bool × AsyncTcpClient :=
  if !c.isRunning then (false, c)
  else
    let c := { c with isRunning := false }
    if c.isOpen then (closeErr.isNone, { c with isOpen := false }) else (true, c)

/-- `client_socket_->async_send`, with `HandleWrite` bound to `expected`. -/
def asyncSend (data : List UInt8) (expected : ℕ) (c : AsyncTcpClient) : AsyncTcpClient :=
  { c with sends := c.sends ++ [⟨data, expected, data⟩] }

/-- `Respond` -/
def respond (code : ResponseCode) (message : List UInt8) (flags : UInt8) (c : AsyncTcpClient) :
    AsyncTcpClient :=
  (c.asyncSend (responseHeader code (UInt64.ofNat message.length) flags) 8).asyncSend
    message message.length

/-- `HandleWrite`; the result of `Stop` is dropped. -/
def handleWrite (err : Option ErrorCode) (sent expected : ℕ) (c : AsyncTcpClient) :
    AsyncTcpClient :=
  if err.isSome || sent != expected then (c.stop none).2 else c

/-- `ConnectionClosed.Invoke` -/
def raiseConnectionClosed (err : ErrorCode) (c : AsyncTcpClient) :
    AsyncTcpClient × List ReadOp :=
  ({ c with events := c.events ++ [.connectionClosed err] }, [.raisingConnectionClosed err])

/-- The completion handler of the header, up to the end of the handler or to an event. -/
def handleHeader (err : Option ErrorCode) (rec : ℕ) (c : AsyncTcpClient) :
    AsyncTcpClient × List ReadOp :=
  match err with
  | some err => c.raiseConnectionClosed err
  | none =>
    if rec != 8 then c.raiseConnectionClosed .messageSize
    else if msgLength c.headerBuffer == 0 then
      ({ c.respond .kEmptyMessage emptyMessageText 0 with
          events := c.events ++ [.respondedEmpty] }, [.respondedEmpty])
    else (c, [.readingBody (msgLength c.headerBuffer) 0])

/-- The completion handler of the body, up to an event. -/
def handleBody (length : UInt32) (err : Option ErrorCode) (rec : ℕ) (c : AsyncTcpClient) :
    AsyncTcpClient × List ReadOp :=
  match err with
  | some err => c.raiseConnectionClosed err
  | none =>
    if length.toNat != rec then c.raiseConnectionClosed .messageSize
    -- the iterators of the message drain `buffer_`
    else ({ c with buffer := [], events := c.events ++ [.messageRecieved c.buffer] },
      [.raisingMessageRecieved])

/-- No handler of the client is running on its strand. -/
def strandFree (c : AsyncTcpClient) : Bool :=
  c.reads.all fun
    | .raisingMessageRecieved | .respondedEmpty | .raisingConnectionClosed _ => false
    | _ => true

/-- The next send finds the bytes that it was given, as far as it gets. -/
def nextIntact (c : AsyncTcpClient) (sent : ℕ) : Bool := c.sends.head?.all (·.isIntact sent)

/-- Take `n` available bytes off the socket. -/
def takeBytes (n : ℕ) (c : AsyncTcpClient) : AsyncTcpClient :=
  { c with received := c.received ++ c.available.take n, available := c.available.drop n }

/-- The effect of a step on a read chain, and what becomes of the chain. -/
def stepRead (c : AsyncTcpClient) : ReadLabel → ReadOp → Option (AsyncTcpClient × List ReadOp)
  | .receiveSome n, .receivingHeader =>
    if c.isOpen ∧ 1 ≤ n ∧ n ≤ 8 ∧ n ≤ c.available.length then
      some ({ c.takeBytes n with
          headerBuffer := c.available.take n ++ c.headerBuffer.drop n }, [.headerReceived none n])
    else none
  | .receiveFail err, .receivingHeader => some (c, [.headerReceived (some err) 0])
  | .readSome n, .readingBody length transferred =>
    -- `transfer_at_least` goes on reading while there are too few bytes
    if c.isOpen ∧ 1 ≤ n ∧ n ≤ c.available.length then
      some ({ c.takeBytes n with buffer := c.buffer ++ c.available.take n },
        [if transferred + n < length.toNat then .readingBody length (transferred + n)
          else .bodyRead length none (transferred + n)])
    else none
  | .readFail err, .readingBody length transferred =>
    some (c, [.bodyRead length (some err) transferred])
  | .headerHandler, .headerReceived err rec =>
    if c.strandFree then some (c.handleHeader err rec) else none
  | .bodyHandler, .bodyRead length err rec =>
    if c.strandFree then some (c.handleBody length err rec) else none
  | .resume, .raisingMessageRecieved => some (c, c.startRead)
  | .resume, .respondedEmpty => some (c, c.startRead)
  | .closeReturned, .raisingConnectionClosed _ => some (c, [])
  | _, _ => none

/-- The state after a step, where the step is possible. -/
def step (c : AsyncTcpClient) : Label → Option AsyncTcpClient
  | .start => some c.start.2
  | .stop => some (c.stop none).2
  | .respond code message flags => some (c.respond code message flags)
  | .arrive n =>
    if 1 ≤ n ∧ n ≤ c.incoming.length then
      some { c with
        available := c.available ++ c.incoming.take n
        incoming := c.incoming.drop n }
    else none
  | .read i l => do
    let op ← c.reads[i]?
    let (c', ops) ← c.stepRead l op
    return { c' with reads := c.reads.take i ++ ops ++ c.reads.drop (i + 1) }
  | .overwrite i contents => do
    let op ← c.sends[i]?
    if contents.length = op.data.length then
      return { c with sends := c.sends.set i { op with contents := contents } }
    else none
  | .send sent err =>
    match c.sends with
    | [] => none
    | op :: sends =>
      if sent ≤ op.data.length ∧ (err.isSome → sent = 0) ∧ (c.isOpen = false → err.isSome) then
        some { c with
          sends := sends
          wire := c.wire ++ op.contents.take sent
          writes := c.writes ++ [⟨err, sent, op.expected⟩] }
      else none
  | .handleWrite i => do
    let w ← c.writes[i]?
    if c.strandFree then
      return ({ c with writes := c.writes.eraseIdx i }).handleWrite w.err w.sent w.expected
    else none

/-- A run of a client. -/
abbrev run (c : AsyncTcpClient) (ls : List Label) : Option AsyncTcpClient := Core.run step c ls

end AsyncTcpClient

end EzServer.Net
