import SimKernel.Simulator.Program

/-!
# Trickle timers

Periodic transmissions that are spread over an interval. The interval begins at some length and doubles after each
period up to a greatest length. In each period the timer fires once, at a random point of the second half, unless as
many consistent messages as the redundancy were heard in that period before; redundancy zero never keeps it silent. An
inconsistency shrinks the interval to its least length.

The timer acts by two events, one at the random point and one at the end of the period. The actions of these events are
given by the model (`Trickle.Actions`); what they do to the timer is `fire` and `endInterval`.
-/

namespace SimKernel

/-- A timer for periodic transmissions. -/
structure Trickle (α : Type) where
  minInterval : Time
  maxInterval : Time
  /-- How often the least interval doubles to become the greatest. -/
  doublings : Nat
  /-- The number of consistent messages that keep the timer silent. -/
  redundancy : Nat
  currentInterval : Time
  /-- The number of consistent messages in this period. -/
  counter : Nat
  timerEvent : Option EventId
  intervalEvent : Option EventId
  /-- What it does when it fires. -/
  callback : Option α
deriving DecidableEq

namespace Trickle

open Program

variable {α ω : Type}

/-- The actions of a timer's two events. -/
structure Actions (α : Type) where
  fire : α
  endInterval : α

/-- The greatest count of consistent messages. -/
def counterLimit : Nat := UInt16.size - 1

/-! ## Parameters -/

/-- The greatest interval for parameters that a timer accepts. -/
def greatestInterval (minInterval : Time) (doublings : Nat) : Except SimError Time :=
  if 64 ≤ doublings then .error (.invalidConfig ("trickle doublings " ++ toString doublings ++ " is too large"))
  else if !minInterval.isPositive then
    .error (.invalidConfig ("trickle minimum interval " ++ minInterval.render ++ " must be positive"))
  else
    match if doublings < 63 then minInterval.checkedMul (1 <<< doublings : Nat) else none with
    | some maxInterval => .ok maxInterval
    | none => .error (.invalidConfig "trickle maximum interval overflows")

/-- Replaces the parameters from the next period on. -/
def setParameters (t : Trickle α) (minInterval : Time) (doublings redundancy : Nat) : Except SimError (Trickle α) := do
  let maxInterval ← greatestInterval minInterval doublings
  return { t with minInterval, maxInterval, doublings, redundancy }

/-- A new timer that is not started. -/
def ofParameters (minInterval : Time) (doublings redundancy : Nat) : Except SimError (Trickle α) :=
  setParameters ⟨Time.zero, Time.zero, 0, 0, Time.zero, 0, none, none, none⟩ minInterval doublings redundancy

/-! ## Looking at the timer -/

/-- The time until the timer fires in this period; zero if it does not. -/
def delayLeft (t : Trickle α) : Program α ω Time :=
  match t.timerEvent with
  | some id => query (.delayLeft id)
  | none => return Time.zero

/-- The time until the period ends; zero if the timer is stopped. -/
def intervalLeft (t : Trickle α) : Program α ω Time :=
  match t.intervalEvent with
  | some id => query (.delayLeft id)
  | none => return Time.zero

/-- The timer's parameters, interval and counter as text. -/
def describe (t : Trickle α) : String :=
  "TrickleTimer \x7b min_interval: " ++ t.minInterval.describe ++ ", max_interval: " ++ t.maxInterval.describe ++
    ", redundancy: " ++ toString t.redundancy ++ ", current_interval: " ++ t.currentInterval.describe ++
    ", counter: " ++ toString t.counter ++ ", .. \x7d"

/-! ## Periods -/

/-- The double one half. -/
def half : Binary64 := (Binary64.ofNat 1).div (Binary64.ofNat 2)

/-- Begins a period of the current length: schedules its end and then the random point in its second half. -/
def startInterval (actions : Actions α) (t : Trickle α) : Program α ω (Except SimError Unit × Trickle α) := do
  match ← request (.schedule t.currentInterval actions.endInterval) with
  | .error e => return (.error e, t)
  | .ok intervalEvent =>
    let fraction ← random fun g => g.doubleRange half (Binary64.ofNat 1)
    match ← request (.schedule (t.currentInterval.scale fraction) actions.fire) with
    | .error e => return (.error e, t)
    | .ok timerEvent =>
      return (.ok (), { t with intervalEvent := some intervalEvent, timerEvent := some timerEvent, counter := 0 })

/-- What is left to do when the random point is reached, if the timer is not kept silent. -/
def fire (t : Trickle α) : Option α × Trickle α :=
  let mayFire := t.redundancy = 0 ∨ t.counter < t.redundancy
  (if mayFire then t.callback else none, { t with timerEvent := none })

/-- Begins the next period, twice as long unless that is too long. -/
def endInterval (actions : Actions α) (t : Trickle α) : Program α ω (Except SimError Unit × Trickle α) := do
  let doubled ← ofFaulty (t.currentInterval.mul 2)
  startInterval actions { t with currentInterval := if doubled ≤ t.maxInterval then doubled else t.maxInterval }

/-! ## Requests -/

/-- A random multiple of the least interval: a whole part, and a fraction unless the whole part is the greatest one. -/
def drawFactor (t : Trickle α) : Program α ω Binary64 := do
  let ticks : Nat := 1 <<< t.doublings
  let whole ← random fun g => g.intRange .u64 1 (ticks + 1)
  if whole < ticks then
    let fraction ← random fun g => .ok g.unit
    return (Binary64.ofInt whole).add fraction
  else return Binary64.ofInt whole

/-- Starts the timer with a random first interval. -/
def enable (actions : Actions α) (t : Trickle α) : Program α ω (Except SimError Unit × Trickle α) := do
  let factor ← t.drawFactor
  startInterval actions { t with currentInterval := t.minInterval.scale factor }

/-- Records a consistent message. -/
def hearConsistent (t : Trickle α) : Trickle α :=
  { t with counter := min (t.counter + 1) counterLimit }

/-- Cancels the events of the timer. -/
def cancelEvents (t : Trickle α) : Program α ω (Trickle α) := do
  if let some id := t.timerEvent then
    let _ ← request (.cancel id)
  if let some id := t.intervalEvent then
    let _ ← request (.cancel id)
  return { t with timerEvent := none, intervalEvent := none }

/-- Starts again with the least interval. -/
def reset (actions : Actions α) (t : Trickle α) : Program α ω (Except SimError Unit × Trickle α) := do
  let t ← t.cancelEvents
  startInterval actions { t with currentInterval := t.minInterval }

/-- Records an inconsistency: starts again, unless the interval is no longer than the least one. -/
def hearInconsistent (actions : Actions α) (t : Trickle α) : Program α ω (Except SimError Unit × Trickle α) :=
  if t.minInterval < t.currentInterval then t.reset actions else return (.ok (), t)

/-- Stops the timer. -/
def stop (t : Trickle α) : Program α ω (Trickle α) := do
  let t ← t.cancelEvents
  return { t with currentInterval := t.minInterval, counter := 0 }

end Trickle

end SimKernel
