/-!
# Units of time

Nine units from the day to the femtosecond. A unit is written by its suffix, and no two units share one
(`ofSuffix?_suffix`, `suffix_of_ofSuffix?`).
-/

namespace SimKernel

/-- The units of time, from the longest to the shortest. -/
inductive TimeUnit where
  | day
  | hour
  | minute
  | second
  | millisecond
  | microsecond
  | nanosecond
  | picosecond
  | femtosecond
deriving DecidableEq, Repr, Inhabited

namespace TimeUnit

/-- All units, from the longest to the shortest. -/
def all : List TimeUnit :=
  [day, hour, minute, second, millisecond, microsecond, nanosecond, picosecond, femtosecond]

/-- The length of the unit in femtoseconds. -/
def femtos : TimeUnit → Nat
  | day => 86_400_000_000_000_000_000
  | hour => 3_600_000_000_000_000_000
  | minute => 60_000_000_000_000_000
  | second => 1_000_000_000_000_000
  | millisecond => 1_000_000_000_000
  | microsecond => 1_000_000_000
  | nanosecond => 1_000_000
  | picosecond => 1_000
  | femtosecond => 1

/-- The text that follows a number of such units. -/
def suffix : TimeUnit → String
  | day => "d"
  | hour => "h"
  | minute => "min"
  | second => "s"
  | millisecond => "ms"
  | microsecond => "us"
  | nanosecond => "ns"
  | picosecond => "ps"
  | femtosecond => "fs"

/-- The unit with the given suffix. -/
def ofSuffix? (s : String) : Option TimeUnit :=
  all.find? fun unit => unit.suffix == s

/-- The place of the unit in the list of all units. -/
def rank (unit : TimeUnit) : Nat :=
  all.idxOf unit

instance : Ord TimeUnit := ⟨fun a b => compare a.rank b.rank⟩

theorem femtos_pos (unit : TimeUnit) : 0 < unit.femtos := by
  cases unit <;> decide

/-- A suffix is the suffix of the unit that it is read as. -/
theorem suffix_of_ofSuffix? {s : String} {unit : TimeUnit} (h : ofSuffix? s = some unit) : unit.suffix = s := by
  have := List.find?_some h
  simpa using this

/-- Every unit is read back from its suffix. -/
theorem ofSuffix?_suffix (unit : TimeUnit) : ofSuffix? unit.suffix = some unit := by
  cases unit <;> decide

end TimeUnit

end SimKernel
