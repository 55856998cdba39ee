/-!
# Identifiers

Contexts say on whose behalf an event runs; event identifiers name events across their whole life. Both are ordered,
event identifiers by number, then by the simulator that issued them, then by slot.
-/

namespace SimKernel

/-- On whose behalf an event runs. -/
structure ContextId where
  value : UInt32
deriving DecidableEq, Repr

namespace ContextId

/-- No context in particular. -/
protected def none : ContextId := ⟨0xffffffff⟩

instance : Inhabited ContextId := ⟨ContextId.none⟩

def isNone (c : ContextId) : Bool := c == ContextId.none

instance : Ord ContextId := ⟨fun a b => compare a.value.toNat b.value.toNat⟩

/-- The number of the context, or a dash for none. -/
def render (c : ContextId) : String :=
  if c.isNone then "-" else toString c.value.toNat

end ContextId

/-- The name of an event: its number, the simulator that issued it, and the slot that held it. -/
structure EventId where
  uid : Nat
  owner : Nat
  slot : Nat
deriving DecidableEq, Repr

namespace EventId

/-- The order by number, then simulator, then slot. -/
instance : Ord EventId :=
  ⟨fun a b => (compare a.uid b.uid).then ((compare a.owner b.owner).then (compare a.slot b.slot))⟩

def render (e : EventId) : String := "event#" ++ toString e.uid

end EventId

end SimKernel
