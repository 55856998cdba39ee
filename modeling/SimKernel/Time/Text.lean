import SimKernel.Text.Blank
import SimKernel.Text.Digits
import SimKernel.Text.Quoted
import SimKernel.Time.Basic

/-!
# Times as text

A time is written as a whole number of its natural unit. A text is read as an optional sign, a decimal number and a
unit, with blanks around the whole and before the unit. Nothing is rounded: a number that is not a whole number of
femtoseconds is refused, and so is one for which a magnitude on the way to the result does not fit.
-/

namespace SimKernel

/-- The reasons why a text is not a time, or a time has no other form. -/
inductive TimeError where
  | empty
  | invalidNumber (input : String)
  | missingUnit (input : String)
  | unknownUnit (unit : String)
  | tooPrecise (input : String)
  | overflow (input : String)
  | negative (time : Time)
deriving DecidableEq

namespace Time

/-- The time as a number of its natural unit. -/
def render (t : Time) : String :=
  if t.isZero then "0s"
  else String.ofList (Text.showInt (t.inUnits t.naturalUnit)) ++ t.naturalUnit.suffix

instance : ToString Time := ⟨render⟩

/-- The time as text that tells what it is. -/
def describe (t : Time) : String := "Time(" ++ t.render ++ ")"

/-- The number of femtoseconds of a time without its sign. -/
abbrev Magnitude := Fin 0x8000_0000_0000_0000_0000_0000_0000_0000

/-- The time of the given sign and magnitude. -/
def ofMagnitude (negative : Bool) (m : Magnitude) : Time :=
  ⟨if negative then -(m.val : Int) else m.val, by have := m.isLt; split <;> omega, by have := m.isLt; split <;> omega⟩

/-- The number as a magnitude, or the given error if it does not fit. -/
def magnitude (e : TimeError) (n : Nat) : Except TimeError Magnitude :=
  if h : n < 0x8000_0000_0000_0000_0000_0000_0000_0000 then .ok ⟨n, h⟩ else .error e

/-- The sign that a text begins with, and the rest. -/
def splitSign : List Char → Bool × List Char
  | '-' :: s => (true, s)
  | '+' :: s => (false, s)
  | s => (false, s)

/-- The characters of which the number consists. -/
def isNumberChar (c : Char) : Bool :=
  c.isDigit || c == '.'

/-- The parts of a number before and after its first point. -/
def splitPoint (s : List Char) : List Char × List Char :=
  (s.takeWhile (· != '.'), (s.dropWhile (· != '.')).tail)

/-- The femtoseconds in a number of units, given by its digits before and after the point. Digits after the point are
counted in 32 bits. -/
def readMagnitude (input : String) (unit : TimeUnit) (whole fraction : List Char) : Except TimeError Magnitude := do
  let units ← magnitude (.invalidNumber input) (Text.ofDigits whole)
  let femtos ← magnitude (.overflow input) (units * unit.femtos)
  if fraction.all Char.isDigit then
    let digits := Text.dropTrailingZeros fraction
    if digits.isEmpty then
      .ok femtos
    else
      let scale ← magnitude (.tooPrecise input) (Nat.pow 10 (digits.length % UInt32.size))
      let numerator ← magnitude (.invalidNumber input) (Text.ofDigits digits)
      let scaled ← magnitude (.overflow input) (numerator * unit.femtos)
      if scaled.val % scale.val = 0 then
        magnitude (.overflow input) (femtos.val + scaled.val / scale.val)
      else .error (.tooPrecise input)
  else .error (.invalidNumber input)

/-- Reads a text without blanks around it. -/
def readTrimmed (s : List Char) : Except TimeError Time :=
  let input := String.ofList s
  let (negative, body) := splitSign s
  let number := body.takeWhile isNumberChar
  let rest := body.dropWhile isNumberChar
  if rest.isEmpty then .error (.missingUnit input)
  else
    let name := String.ofList (Text.trim rest)
    match TimeUnit.ofSuffix? name with
    | none => .error (.unknownUnit name)
    | some unit =>
      let (whole, fraction) := splitPoint number
      if whole.isEmpty && fraction.isEmpty then .error (.invalidNumber input)
      else (readMagnitude input unit whole fraction).map (ofMagnitude negative)

/-- Reads a time. -/
def parse (s : String) : Except TimeError Time :=
  let trimmed := Text.trim s.toList
  if trimmed.isEmpty then .error .empty else readTrimmed trimmed

end Time

/-- The text shown for an error. -/
def TimeError.message : TimeError → String
  | empty => "empty time string"
  | invalidNumber input => "invalid number in time string " ++ Text.quote input.toList
  | missingUnit input =>
    "missing unit in time string " ++ Text.quote input.toList ++ " (expected d, h, min, s, ms, us, ns, ps or fs)"
  | unknownUnit unit => "unknown time unit " ++ Text.quote unit.toList
  | tooPrecise input => "time string " ++ Text.quote input.toList ++ " is more precise than one femtosecond"
  | overflow input => "time value " ++ Text.quote input.toList ++ " is out of range"
  | negative time => "negative time " ++ time.render ++ " cannot be represented as a Duration"

end SimKernel
