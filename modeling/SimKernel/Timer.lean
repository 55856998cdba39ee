import SimKernel.Simulator.Program

/-!
# Timers

A timer that fires once after a delay, and that can be armed again, cancelled, suspended and resumed. It keeps the name
of the event that it scheduled last; while it is suspended it keeps the remaining delay instead. What it does when it
fires is an action of the model, the one set when it was armed.

Arming cancels what was armed before. The operations are programs, so they run inside and outside of actions alike.
-/

namespace SimKernel

/-- A timer that fires once. -/
structure Timer (α : Type) where
  delay : Time := Time.zero
  /-- What it does when it fires. -/
  callback : Option α := none
  /-- The event that it scheduled last. -/
  event : Option EventId := none
  /-- What is left of the delay of a suspended timer. -/
  remaining : Option Time := none
deriving DecidableEq

/-- What a timer is doing. -/
inductive TimerState where
  | running
  | expired
  | suspended
deriving DecidableEq, Repr

def TimerState.render : TimerState → String
  | running => "Running"
  | expired => "Expired"
  | suspended => "Suspended"

namespace Timer

open Program

variable {α ω : Type}

/-- Cancels the timer's event and forgets a remaining delay. -/
def cancel (t : Timer α) : Program α ω (Timer α) := do
  if let some id := t.event then
    let _ ← request (.cancel id)
  return { t with event := none, remaining := none }

/-- Arms the timer with a delay. -/
def armAfter (t : Timer α) (delay : Time) : Program α ω (Except SimError Unit × Timer α) :=
  match t.callback with
  | none => return (.error (.invalidState "timer has no callback"), t)
  | some a => do
    let t ← t.cancel
    match ← request (.schedule delay a) with
    | .ok id => return (.ok (), { t with event := some id })
    | .error e => return (.error e, t)

/-- Arms the timer with its own delay. -/
def arm (t : Timer α) : Program α ω (Except SimError Unit × Timer α) :=
  t.armAfter t.delay

/-- What the timer is doing. -/
def state (t : Timer α) : Program α ω TimerState :=
  match t.remaining, t.event with
  | some _, _ => return .suspended
  | none, some id => do
    let pending ← query (.isPending id)
    return if pending then .running else .expired
  | none, none => return .expired

/-- The time until the timer fires, had it not been suspended; zero if it will not fire. -/
def delayLeft (t : Timer α) : Program α ω Time :=
  match t.remaining, t.event with
  | some remaining, _ => return remaining
  | none, some id => query (.delayLeft id)
  | none, none => return Time.zero

/-- Cancels the event of a running timer and keeps the remaining delay. -/
def suspend (t : Timer α) : Program α ω (Except SimError Unit × Timer α) := do
  if (← t.state) = .running then
    let remaining ← t.delayLeft
    let t ← t.cancel
    return (.ok (), { t with remaining := some remaining })
  else return (.error (.invalidState "cannot suspend a timer that is not running"), t)

/-- Arms a suspended timer with the remaining delay. -/
def resume (t : Timer α) : Program α ω (Except SimError Unit × Timer α) :=
  match t.remaining with
  | some remaining => t.armAfter remaining
  | none => return (.error (.invalidState "cannot resume a timer that is not suspended"), t)

/-- The timer's parts as text. -/
def describe (t : Timer α) : String :=
  let event := match t.event with
    | some id =>
      "Some(EventId \x7b uid: " ++ toString id.uid ++ ", owner: " ++ toString id.owner ++ ", slot: " ++
        toString id.slot ++ " \x7d)"
    | none => "None"
  let remaining := match t.remaining with
    | some time => "Some(" ++ time.describe ++ ")"
    | none => "None"
  "Timer \x7b delay: " ++ t.delay.describe ++ ", has_callback: " ++ toString t.callback.isSome ++ ", event: " ++ event ++
    ", remaining: " ++ remaining ++ " \x7d"

end Timer

end SimKernel
