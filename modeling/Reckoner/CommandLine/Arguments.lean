/-
  Reckoner/CommandLine/Arguments.lean
  ===================================
  **Arguments of a command.**  An expression may begin with a minus, so telling
  options from operands takes care.  `Arguments.read?` sorts a row of arguments by
  three rules:

    * an argument that begins with `--` is an option if its name is known, and an
      operand otherwise;
    * one that begins with a single `-` is a bundle of letters: those that are
      known flags are taken out, and what is left is an operand;
    * after a bare `--` all arguments are operands.

  A flag takes no value, so one with a value attached is an error.

  Like the terminal, this belongs to the outer layer of the program: only the command
  line knows of it.
-/
namespace Reckoner.CommandLine

/-- The flags of a command: names that follow `--`, and letters that follow `-`
    with the name that each is short for. -/
structure Flags where
  names : List String
  letters : List (Char × String)

/-- Arguments that have been sorted: the flags that were given, and the operands,
    both in order. -/
structure Arguments where
  given : List String
  operands : List String
deriving DecidableEq, Repr

namespace Arguments

def withOperand (operand : String) (arguments : Arguments) : Arguments :=
  { arguments with operands := operand :: arguments.operands }

def withFlags (flags : List String) (arguments : Arguments) : Arguments :=
  { arguments with given := flags ++ arguments.given }

/-- An option cut at its first equals sign: its name, and the value attached to
    it, if any. -/
def cutOption (cs : List Char) : String × Option String :=
  let name := String.ofList (cs.takeWhile (· != '='))
  match cs.dropWhile (· != '=') with
  | [] => (name, none)
  | _ :: value => (name, some (String.ofList value))

/-- A bundle of letters behind a single minus: the flags among them, and the rest
    as an operand, if anything is left. -/
def readBundle (flags : Flags) (cs : List Char) (arguments : Arguments) : Arguments :=
  let unknown := cs.filter fun c => (flags.letters.lookup c).isNone
  let known := cs.filterMap fun c => flags.letters.lookup c
  if unknown.isEmpty then arguments.withFlags known
  else (arguments.withOperand (String.ofList ('-' :: unknown))).withFlags known

/-- Sorts a row of arguments, nothing where a flag has a value attached. -/
def read? (flags : Flags) : List String → Option Arguments
  | [] => some ⟨[], []⟩
  | argument :: rest =>
    match argument.toList with
    | ['-', '-'] => some ⟨[], rest⟩
    | '-' :: '-' :: cs =>
      match cutOption cs with
      | (name, value) =>
        if flags.names.contains name then
          if value.isSome then none else (read? flags rest).map (withFlags [name])
        else (read? flags rest).map (withOperand argument)
    | '-' :: c :: cs => (read? flags rest).map (readBundle flags (c :: cs))
    | _ => (read? flags rest).map (withOperand argument)

/-- The last value given to an option in a row of arguments that may hold nothing
    else, the standard one where it is not given.  The value is attached by an
    equals sign or is the next argument, whatever that looks like. -/
def readOption? (option standard : String) : List String → Option String
  | [] => some standard
  | ["--"] => some standard
  | argument :: rest =>
    if argument == option then
      match rest with
      | [] => none
      | value :: rest => readOption? option value rest
    else
      match argument.toList with
      | '-' :: '-' :: cs =>
        match cutOption cs with
        | (name, some value) =>
          if "--" ++ name == option then readOption? option value rest else none
        | (_, none) => none
      | _ => none

end Arguments

end Reckoner.CommandLine
