import SimKernel.Identity
import SimKernel.Time.Basic

/-!
# The event slots

The pending events, each in a numbered slot. Slots of events that are gone are given out again, the one freed last
first. An event is found by its slot and its own number, so a slot that holds another event by now does not answer to
the name of the old one.
-/

namespace SimKernel

/-- A pending event: its number, when and on whose behalf it runs, and what it does. -/
structure EventRecord (α : Type) where
  uid : Nat
  time : Time
  context : ContextId
  action : α

/-- Slots with the pending events, the free slots, and the number of pending events. -/
structure EventSlots (α : Type) where
  slots : Array (Option (EventRecord α))
  free : List Nat
  live : Nat

namespace EventSlots

variable {α : Type}

def empty : EventSlots α := ⟨#[], [], 0⟩

instance : Inhabited (EventSlots α) := ⟨empty⟩

/-- Stores an event, in the slot freed last or in a new one, and answers the slot. -/
def insert (s : EventSlots α) (r : EventRecord α) : Nat × EventSlots α :=
  match s.free with
  | slot :: free => (slot, ⟨s.slots.setIfInBounds slot (some r), free, s.live + 1⟩)
  | [] => (s.slots.size, ⟨s.slots.push (some r), [], s.live + 1⟩)

/-- The event with the given number in the given slot. -/
def get? (s : EventSlots α) (slot uid : Nat) : Option (EventRecord α) := do
  let r ← (s.slots[slot]?).join
  if r.uid = uid then some r else none

/-- The event with the given number in the given slot, and the slots without it. -/
def take? (s : EventSlots α) (slot uid : Nat) : Option (EventRecord α × EventSlots α) :=
  match s.get? slot uid with
  | some r => some (r, ⟨s.slots.setIfInBounds slot none, slot :: s.free, s.live - 1⟩)
  | none => none

/-- All pending events, by slot. -/
def records (s : EventSlots α) : List (EventRecord α) :=
  s.slots.toList.filterMap id

end EventSlots

end SimKernel
