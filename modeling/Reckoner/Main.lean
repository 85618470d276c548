/-
  Reckoner/Main.lean
  ==================
  **The program.**  All that is decided, is decided in `Command` and `Session`; here
  the arguments, the environment and the lines come in, and what is shown goes out.
  A session is held line by line, so that each answer stands before the next line is
  asked for.  Its times are those of the clock, in UTC and as ISO 8601 writes them.
-/
import Mathlib.Init
import Reckoner.CommandLine

namespace Reckoner

open CommandLine

/-- The time now, such as `2024-01-02T03:04:05.678901+00:00`. -/
def timestamp : IO String := do
  let now := Std.Time.DateTime.ofTimestampWithZone (← Std.Time.Timestamp.now) .UTC
  return now.format "uuuu-MM-dd'T'HH:mm:ss.SSSSSSxxx"

/-- What comes of showing something on the terminal; a misuse ends the program. -/
def orThrow {α : Type} : Except (Interruption Empty) α → IO α
  | .ok x => return x
  | .error interruption =>
    throw (.userError ((Terminal.misuseOf interruption).message?.getD "Misuse"))

def display (shown : List Shown) : IO Unit := do
  let output ← IO.getStdout
  for one in shown do
    output.putStr one.text
  output.flush

/-- Reads and answers lines until the user leaves or they end. -/
partial def holdSession (history : History) : IO History := do
  display [← orThrow (Terminal.console.print (.ok Session.prompt))]
  let text ← (← IO.getStdin).getLine
  if text.isEmpty then return history
  match Session.Request.ofLine text with
  | .leave => return history
  | request =>
    let (shown, after) ←
      orThrow (Session.respond Terminal.console history (← timestamp) request)
    display shown
    holdSession after

def carryOut (command : Command) : IO UInt32 := do
  match command with
  | .converse capacity =>
    display [← orThrow (Terminal.console.print (.ok Session.greeting))]
    let history ← holdSession (.empty capacity)
    display (← orThrow (Session.conclude Terminal.console history))
    return 0
  | command =>
    let response ← orThrow (command.answer Terminal.console Terminal.console [])
    IO.print response.output
    IO.eprint response.errors
    return UInt32.ofNat response.exitCode

end Reckoner

open Reckoner in
def main (arguments : List String) : IO UInt32 := do
  let capacity ← IO.getEnv "INFIXCALC_MAX_HISTORY"
  let level ← IO.getEnv "INFIXCALC_LOG_LEVEL"
  match CommandLine.readArguments (.ofEnvironment capacity level) arguments with
  | .ok command => carryOut command
  | .error .usage =>
    IO.eprintln "Usage: reckoner [--log-level NAME] eval|postfix|repl ..."
    return 2
  | .error (.misuse misuse) =>
    IO.eprintln (misuse.message?.getD "No such level")
    return 1
