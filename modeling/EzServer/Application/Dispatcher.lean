import EzServer.Introp.Commands
import EzServer.Net.Protocol

/-!
# The dispatcher

`Application::OnMessageReceived`, as the list of what it does. What a command does when it is
called is a parameter.
-/

namespace EzServer.Application

open EzServer.Core EzServer.Core.Regex Introp Net

variable {χ : Type}

/-- The result of a command. -/
inductive CommandResultStatus where
  | kSuccess
  | kClientDisconnected
  | kFailure
  deriving DecidableEq, Repr

/-- How a call of a command ends. -/
inductive CommandEnding where
  | returned (status : CommandResultStatus)
  /-- It throws a `std::exception`, or something else. -/
  | threw (isStd : Bool)
  deriving DecidableEq, Repr

/-- A call of a command: the responses it sends, and how it ends. -/
structure CommandRun where
  responses : List (ResponseCode × List UInt8 × UInt8)
  ending : CommandEnding
  deriving DecidableEq, Repr

inductive Action (χ : Type) where
  /-- `commands_.find` -/
  | find (key : List UInt8)
  /-- A response of the dispatcher itself. -/
  | respond (code : ResponseCode) (message : List UInt8) (flags : UInt8)
  | call (command : χ) (args : List UInt8) (run : CommandRun)
  deriving DecidableEq, Repr

/-- What `OnMessageReceived` has done; `returned` is false if an exception leaves it. -/
structure Dispatched (χ : Type) where
  actions : List (Action χ)
  returned : Bool
  deriving DecidableEq, Repr

/-- `[\w\-\.]` -/
def isSegmentByte (c : UInt8) : Bool := isWord c || c == byte '-' || c == byte '.'

/-- `^((?:\/[\w\-\.]+)+:\w+)\s+(.*)\n?$` -/
def requestPattern : Regex UInt8 :=
  .seq .lineStart (.seq
    (.group 1 (.seq
      (.plus (.seq (.one (· == byte '/')) (.plus (.one isSegmentByte))))
      (.seq (.one (· == byte ':')) (.plus (.one isWord)))))
    (.seq (.plus (.one isSpace)) (.seq
      (.group 2 (.star (.one isDot)))
      (.seq (.opt (.one (· == byte '\n'))) .lineEnd))))

/-- The bytes of an ASCII text. -/
def text (s : String) : List UInt8 := s.toList.map byte

/-- `matches[n].str()` -/
def str (matched : Cursor UInt8) (n : ℕ) : List UInt8 := (matched.captures n).getD []

/-- `OnMessageReceived` -/
def onMessageReceived (behaviour : χ → List UInt8 → CommandRun) (commands : Commands χ)
    (message : List UInt8) : Dispatched χ :=
  match requestPattern.search message with
  | none =>
    ⟨[.respond .kInvalidRequest (text "Invalid Command `" ++ message ++ text "`!") 0], true⟩
  | some matched =>
    let key := str matched 1
    match commands.lookup key with
    | none => ⟨[.find key, .respond .kCommandNotFound (key ++ text ": No such command!") 0], true⟩
    | some command =>
      let run := behaviour command.command (str matched 2)
      let actions := [.find key, .call command.command (str matched 2) run]
      match run.ending with
      | .returned _ | .threw true => ⟨actions, true⟩
      | .threw false => ⟨actions, false⟩

end EzServer.Application
