import SimKernel.Error
import SimKernel.Time.Resolution

/-!
# Configuration

The settings of a simulation run. A stop time in the past and a limit of no events are refused, since no run could
honour them (`validate`).
-/

namespace SimKernel

/-- The settings of a run: the tick, the seed of the random generator, and the limits. -/
structure Config where
  resolution : Resolution := default
  seed : UInt64 := 0
  /-- Runs stop at this time. -/
  stopTime : Option Time := none
  /-- Runs stop after this many events. -/
  maxEvents : Option UInt64 := none
deriving DecidableEq

namespace Config

instance : Inhabited Config := ⟨{}⟩

/-- An error if no run could honour the settings. -/
def validate (c : Config) : Except SimError Unit := do
  if let some stop := c.stopTime then
    if stop.isNegative then
      throw (.invalidConfig ("stop_time " ++ stop.render ++ " is negative"))
  if c.maxEvents = some 0 then
    throw (.invalidConfig "max_events must be at least 1")

end Config

end SimKernel
