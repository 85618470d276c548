/-
  Reckoner/Settings/LogLevel.lean
  ===============================
  **Levels of logging.**  A level is a number, the higher the fewer records.  It
  is asked for by name, in any case of letters; a name that stands for nothing
  gives the level of warnings.

  Two names stand for something that is no level: the layout of a record, which
  is a text, and the table of layout styles.  To ask for one is a misuse.
-/
import Reckoner.Value

namespace Reckoner.LogLevel

/-- The upper-case letters of a character, as far as they are ASCII: the dotless
    i, the long s, the sharp s and the ligatures have some too. -/
def upperCase (c : Char) : List Char :=
  match c.toNat with
  | 0x00DF => ['S', 'S']
  | 0x0131 => ['I']
  | 0x017F => ['S']
  | 0xFB00 => ['F', 'F']
  | 0xFB01 => ['F', 'I']
  | 0xFB02 => ['F', 'L']
  | 0xFB03 => ['F', 'F', 'I']
  | 0xFB04 => ['F', 'F', 'L']
  | 0xFB05 => ['S', 'T']
  | 0xFB06 => ['S', 'T']
  | _ => [c.toUpper]

def levels : List (String × Nat) :=
  [("CRITICAL", 50), ("FATAL", 50), ("ERROR", 40), ("WARNING", 30), ("WARN", 30),
   ("INFO", 20), ("DEBUG", 10), ("NOTSET", 0)]

/-- The level of a name that stands for nothing. -/
def fallback : Nat := 30

/-- The layout of a record. -/
def recordLayout : String := "%(levelname)s:%(name)s:%(message)s"

def ofName (name : String) : Except Misuse Nat :=
  let upper := String.ofList (name.toList.flatMap upperCase)
  if upper == "BASIC_FORMAT" then .error (.notALevel recordLayout)
  else if upper == "_STYLES" then .error .wrongKind
  else .ok ((levels.lookup upper).getD fallback)

end Reckoner.LogLevel
