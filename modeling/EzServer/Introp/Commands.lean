import EzServer.Core.Regex
import EzServer.Introp.PluginsLoader

/-!
# Loading commands

`LoadCommands`: the commands of all plugins in the order of the map, each under its path and name.
-/

namespace EzServer.Introp

open EzServer.Core EzServer.Core.Regex

variable {σ χ : Type}

/-- The map of commands, in no particular order. -/
abbrev Commands (χ : Type) := List (List UInt8 × ExportedCommand χ)

/-- `[\w-\.]`, with a literal `-`. -/
def isPathByte (c : UInt8) : Bool := isWord c || c == byte '-' || c == byte '.'

/-- `^(\/[\w-\.]+)+:\w+$` -/
def commandsPattern : Regex UInt8 :=
  .seq .lineStart (.seq
    (.plus (.group 1 (.seq (.one (· == byte '/')) (.plus (.one isPathByte)))))
    (.seq (.one (· == byte ':')) (.seq (.plus (.one isWord)) .lineEnd)))

/-- The key of a command. -/
def ExportedCommand.key (command : ExportedCommand χ) : List UInt8 :=
  command.path ++ byte ':' :: command.name

/-- `commands.emplace`, which keeps an entry that is there. -/
def Commands.emplace (commands : Commands χ) (key : List UInt8) (command : ExportedCommand χ) :
    Commands χ :=
  if (commands.lookup key).isSome then commands else (key, command) :: commands

/-- The loop over the commands of a plugin. -/
def loadExported (commands : Commands χ) : List (ExportedCommand χ) → Commands χ
  | [] => commands
  | command :: exported =>
    if !commandsPattern.fullMatch command.key then loadExported commands exported
    else loadExported (commands.emplace command.key command) exported

/-- `LoadCommands` over the plugins of the map; `false` if an exception leaves it. -/
def loadCommands (commands : Commands χ) : List (IPlugin σ χ) → Commands χ × Bool
  | [] => (commands, true)
  | plugin :: plugins =>
    match plugin.getCommands with
    | .returned exported => loadCommands (loadExported commands exported) plugins
    | .threw true => loadCommands commands plugins
    | .threw false => (commands, false)

end EzServer.Introp
