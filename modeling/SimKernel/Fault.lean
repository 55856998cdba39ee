/-!
# Faults

A fault ends a computation without any answer, as opposed to an error, which is an answer that the caller can act on.
Faults stand for broken promises of the caller: a number that leaves its range, an empty range to draw from, an event
identifier of another simulator.
-/

namespace SimKernel

/-- The reasons why a computation ends without an answer. -/
inductive Fault where
  /-- A number left the range of its type. -/
  | overflow
  /-- The divisor was zero. -/
  | divisionByZero
  /-- No byte string can be so long. -/
  | tooManyBytes
  /-- A span of seconds left its range. -/
  | durationOverflow
  /-- There is no number to draw between the given ends. -/
  | emptyRange
  /-- The lower end of a range of doubles is not a finite number. -/
  | lowEndNotFinite
  /-- The upper end of a range of doubles is not a finite number. -/
  | highEndNotFinite
  /-- The width of a range of doubles is not a finite number. -/
  | widthNotFinite
  /-- The event was issued by another simulator. -/
  | foreignEvent (uid : Nat)
  /-- An event lay before the current time when its turn came. -/
  | clockMovedBack
  /-- A repetition did not end within its bound. -/
  | exhausted
deriving DecidableEq, Repr

/-- The text shown for a fault. -/
def Fault.message : Fault → String
  | overflow => "arithmetic overflow"
  | divisionByZero => "division by zero"
  | tooManyBytes => "capacity overflow"
  | durationOverflow => "overflow in Duration::new"
  | emptyRange => "empty range"
  | lowEndNotFinite => "UniformSampler::sample_single called with `low` non-finite."
  | highEndNotFinite => "UniformSampler::sample_single called with `high` non-finite."
  | widthNotFinite => "UniformSampler::sample_single: range overflow"
  | foreignEvent uid => "event#" ++ toString uid ++ " was not issued by this simulator"
  | clockMovedBack => "time moved backward"
  | exhausted => "repetition limit reached"

end SimKernel
