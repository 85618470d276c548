/-
  Reckoner/Settings.lean
  ======================
  **Settings.**  Two settings come from the environment: how many calculations a
  history keeps, and how much is logged.  A capacity that is not a positive whole
  number is passed over; the level is taken as it stands, for `LogLevel` has a
  meaning for every name.
-/
import Reckoner.Number.Numeral

namespace Reckoner

structure Settings where
  historyCapacity : Nat
  logLevel : String
deriving DecidableEq, Repr

namespace Settings

/-- The settings where the environment says nothing. -/
def standard : Settings where
  historyCapacity := 10
  logLevel := "WARNING"

/-- The capacity that a text asks for, if it is a positive whole number. -/
def readCapacity? (text : String) : Option Nat :=
  match Number.readInteger text with
  | .ok i => if 0 < i then some i.toNat else none
  | .error _ => none

/-- The settings that an environment asks for; a text is absent where the
    environment does not hold the setting. -/
def ofEnvironment (capacity logLevel : Option String) : Settings where
  historyCapacity := (capacity >>= readCapacity?).getD standard.historyCapacity
  logLevel := logLevel.getD standard.logLevel

end Settings

end Reckoner
