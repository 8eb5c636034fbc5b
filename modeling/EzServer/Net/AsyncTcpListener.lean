import EzServer.Net.Protocol

/-!
# The listener

`AsyncTcpListener` up to its acceptor. `Start` opens, binds and listens inside a `try` block; a
call of the operating system that fails leaves what was done before it.
-/

namespace EzServer.Net

/-- A low level acceptor. -/
structure Acceptor where
  isOpen : Bool
  isBound : Bool
  isListening : Bool
  deriving DecidableEq, Repr

structure AsyncTcpListener where
  /-- `acceptor_`, null until `Initialize`. -/
  acceptor : Option Acceptor
  /-- `is_started_` -/
  isStarted : Bool
  deriving DecidableEq, Repr

/-- Which of the calls that `Start` makes the operating system refuses. -/
structure ListenCalls where
  openFails : Bool
  bindFails : Bool
  listenFails : Bool
  deriving DecidableEq, Repr

namespace AsyncTcpListener

/-- A listener as its constructor leaves it. -/
def init : AsyncTcpListener where
  acceptor := none
  isStarted := false

/-- `Initialize` -/
def initializeAcceptor (l : AsyncTcpListener) : Bool × AsyncTcpListener :=
  (true, { l with acceptor := some ⟨false, false, false⟩ })

/-- The `try` block of `Start` up to `is_started_.store(true)`; `false` for an exception. -/
def listen (calls : ListenCalls) (l : AsyncTcpListener) : Bool × AsyncTcpListener :=
  match l.acceptor with
  | none => (false, l)
  | some a =>
    if !a.isOpen && calls.openFails then (false, l)
    else
      let a := { a with isOpen := true }
      if calls.bindFails then (false, { l with acceptor := some a })
      else
        let a := { a with isBound := true }
        if calls.listenFails then (false, { l with acceptor := some a })
        else
          (true, { acceptor := some { a with isListening := true }, isStarted := true })

/-- The flag is set where the block succeeds, and never taken back. -/
lemma isStarted_listen (calls : ListenCalls) (l : AsyncTcpListener) :
    (l.listen calls).2.isStarted = ((l.listen calls).1 || l.isStarted) := by
  rw [listen]
  cases l.acceptor with
  | none => rfl
  | some a =>
    dsimp only
    split_ifs <;> rfl

end AsyncTcpListener

end EzServer.Net
