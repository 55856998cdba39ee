import SimKernel.Time.Basic

/-!
# Resolution

The length of one tick of virtual time. Every instant at which an event is scheduled is a whole number of ticks.
-/

namespace SimKernel

/-- The granularity of virtual time: one tick is one unit. -/
structure Resolution where
  unit : TimeUnit
deriving DecidableEq, Repr

namespace Resolution

/-- One tick is a nanosecond unless something else is asked for. -/
instance : Inhabited Resolution := ⟨⟨.nanosecond⟩⟩

/-- The time of so many ticks. -/
def ofTicks (r : Resolution) (ticks : Int) : Except Fault Time :=
  Time.ofUnits ticks r.unit

/-- The number of whole ticks, truncated toward zero. -/
def toTicks (r : Resolution) (t : Time) : Int :=
  t.inUnits r.unit

/-- The whole ticks of the time. -/
def quantize (r : Resolution) (t : Time) : Time :=
  t.truncateTo r.unit

end Resolution

end SimKernel
