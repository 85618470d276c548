/-
  Reckoner/CommandLine.lean
  =========================
  **The command line.**  Arguments name one of three commands: `eval`, `postfix` or
  `repl`.  In front of the command the level of logging may be set.

  This is the outer layer of the program, with the reader of options
  (`CommandLine/Arguments`) and the terminal (`CommandLine/Terminal`).  What the
  commands do stands in `Command`, for any console, and does not depend on how the
  arguments are read.
-/
import Reckoner.Command
import Reckoner.CommandLine.Arguments
import Reckoner.CommandLine.Terminal
import Reckoner.Settings
import Reckoner.Settings.LogLevel

namespace Reckoner.CommandLine

/-- Why arguments are refused. -/
inductive Refusal
  /-- They are no use of the program. -/
  | usage
  /-- They ask for something that makes no sense. -/
  | misuse (misuse : Misuse)

/-! ### Reading the arguments -/

/-- The option in front of the command. -/
def levelOption : String := "--log-level"

def capacityOption : String := "--max-history"

/-- The level of logging that is asked for in front of the command, if any, and
    the arguments from the command on. -/
def readLevel? (level : Option String) : List String → Option (Option String × List String)
  | [] => some (level, [])
  | "--" :: rest => some (level, rest)
  | argument :: rest =>
    if argument == levelOption then
      match rest with
      | [] => none
      | value :: rest => readLevel? (some value) rest
    else
      match argument.toList with
      | '-' :: '-' :: cs =>
        match Arguments.cutOption cs with
        | (name, some value) =>
          if "--" ++ name == levelOption then readLevel? (some value) rest else none
        | (_, none) => none
      | '-' :: _ :: _ => none
      | _ => some (level, argument :: rest)

def readEvaluate? (arguments : List String) : Option Command :=
  match Arguments.read? ⟨["postfix", "json"], [('p', "postfix")]⟩ arguments with
  | some ⟨given, [expression]⟩ =>
    some (.evaluate expression (given.contains "postfix") (given.contains "json"))
  | _ => none

def readConvert? (arguments : List String) : Option Command :=
  match Arguments.read? ⟨[], []⟩ arguments with
  | some ⟨_, [expression]⟩ => some (.convert expression)
  | _ => none

def readConverse? (settings : Settings) (arguments : List String) : Option Command := do
  let standard := Number.writtenInt settings.historyCapacity
  let text ← Arguments.readOption? capacityOption standard arguments
  let capacity ← Settings.readCapacity? text
  some (.converse capacity)

def readerOf? (settings : Settings) : String → Option (List String → Option Command)
  | "eval" => some readEvaluate?
  | "postfix" => some readConvert?
  | "repl" => some (readConverse? settings)
  | _ => none

/-- What the arguments ask for.  The command must have a known name before the
    level is looked up, and the level must make sense before the command's own
    arguments are read. -/
def readArguments (settings : Settings) (arguments : List String) : Except Refusal Command :=
  match readLevel? none arguments with
  | some (level, name :: rest) =>
    match readerOf? settings name with
    | none => .error .usage
    | some reader =>
      match LogLevel.ofName (chosenLevel level) with
      | .error misuse => .error (.misuse misuse)
      | .ok _ =>
        match reader rest with
        | some command => .ok command
        | none => .error .usage
  | _ => .error .usage
where
  /-- The level that is asked for; an empty name asks for none. -/
  chosenLevel (level : Option String) : String :=
    match level with
    | some name => if name.isEmpty then settings.logLevel else name
    | none => settings.logLevel

/-! ### Answering -/

/-- What the program writes for its arguments on a terminal, or why it refuses them. -/
def respond (settings : Settings) (arguments : List String) (lines : List Session.Line) :
    Except Refusal Command.Response := do
  let command ← readArguments settings arguments
  (command.answer Terminal.console Terminal.console lines).mapError fun interruption =>
    .misuse (Terminal.misuseOf interruption)

end Reckoner.CommandLine
