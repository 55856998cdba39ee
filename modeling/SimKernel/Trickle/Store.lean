import Std.Data.TreeMap.Basic
import SimKernel.Trickle.Basic

/-!
# Shared trickle timers

Trickle timers with any number of handles. A timer lives as long as it has a handle; the events of a timer that is gone
do nothing. Events know their timer by its number, which is never given out again.
-/

namespace SimKernel

/-- A handle to a trickle timer. -/
structure TrickleHandle where
  id : Nat
deriving DecidableEq, Repr

/-- The timers by their numbers, and the number of the timer of every handle. -/
structure TrickleStore (α : Type) where
  timers : Std.TreeMap Nat (Trickle α)
  handles : Std.TreeMap Nat Nat
  next : Nat

namespace TrickleStore

variable {α ω : Type}

def empty : TrickleStore α := ⟨∅, ∅, 0⟩

instance : Inhabited (TrickleStore α) := ⟨empty⟩

/-- The timer of a handle, with its number. -/
def get? (s : TrickleStore α) (h : TrickleHandle) : Option (Nat × Trickle α) := do
  let n ← s.handles[h.id]?
  let t ← s.timers[n]?
  return (n, t)

/-- Puts a timer in place of the one with the given number, unless that is gone. -/
def set (s : TrickleStore α) (n : Nat) (t : Trickle α) : TrickleStore α :=
  { s with timers := s.timers.modify n fun _ => t }

/-- Changes the timer of a handle; a handle that was given up has none. -/
def modify (s : TrickleStore α) (h : TrickleHandle) (f : Trickle α → Trickle α) : TrickleStore α :=
  match s.get? h with
  | some (n, t) => s.set n (f t)
  | none => s

/-- A handle to a new timer. -/
def insert (s : TrickleStore α) (t : Trickle α) : TrickleHandle × TrickleStore α :=
  (⟨s.next⟩, ⟨s.timers.insert s.next t, s.handles.insert s.next s.next, s.next + 1⟩)

/-- A further handle to the timer of a handle. -/
def clone (s : TrickleStore α) (h : TrickleHandle) : TrickleHandle × TrickleStore α :=
  match s.handles[h.id]? with
  | some n => (⟨s.next⟩, { s with handles := s.handles.insert s.next n, next := s.next + 1 })
  | none => (⟨s.next⟩, { s with next := s.next + 1 })

/-- Gives a handle up, and its timer with the last handle. -/
def drop (s : TrickleStore α) (h : TrickleHandle) : TrickleStore α :=
  match s.handles[h.id]? with
  | some n =>
    let handles := s.handles.erase h.id
    { s with handles, timers := if handles.toList.any fun x => x.2 == n then s.timers else s.timers.erase n }
  | none => s

/-- Applies a request to the timer of a handle; a handle that was given up has none. -/
def apply (s : TrickleStore α) (h : TrickleHandle)
    (request : Nat → Trickle α → Program α ω (Except SimError Unit × Trickle α)) :
    Program α ω (Except SimError Unit × TrickleStore α) :=
  match s.get? h with
  | some (n, t) => do
    let (result, t) ← request n t
    return (result, s.set n t)
  | none => return (.ok (), s)

/-- What is left to do at the random point of a timer's period. -/
def fire (s : TrickleStore α) (n : Nat) : Option α × TrickleStore α :=
  match s.timers[n]? with
  | some t =>
    let (callback, t) := t.fire
    (callback, s.set n t)
  | none => (none, s)

/-- Begins the next period of a timer. -/
def endInterval (s : TrickleStore α) (actions : Trickle.Actions α) (n : Nat) :
    Program α ω (Except SimError Unit × TrickleStore α) :=
  match s.timers[n]? with
  | some t => do
    let (result, t) ← t.endInterval actions
    return (result, s.set n t)
  | none => return (.ok (), s)

end TrickleStore

end SimKernel
