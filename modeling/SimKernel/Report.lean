import SimKernel.Binary64.Decimal
import SimKernel.Time.Text

/-!
# Reports

What a simulation did so far: where the clock stands, why the last run stopped, and the counters of its events.
-/

namespace SimKernel

/-- Why a run stopped. -/
inductive StopReason where
  | queueEmpty
  | stopped
  | eventLimit
deriving DecidableEq, Repr

def StopReason.render : StopReason → String
  | queueEmpty => "event queue empty"
  | stopped => "stop requested"
  | eventLimit => "event limit reached"

/-- The counters of a simulation's events. -/
structure Metrics where
  scheduled : Nat := 0
  executed : Nat := 0
  cancelled : Nat := 0
  /-- Keys of cancelled events that were taken from the queue and passed over. -/
  stale : Nat := 0
  /-- The greatest number of events that were pending at once. -/
  peak : Nat := 0
deriving DecidableEq, Repr

instance : Inhabited Metrics := ⟨{}⟩

/-- What a simulation did so far. -/
structure Report where
  finalTime : Time
  stopReason : Option StopReason
  seed : UInt64
  pending : Nat
  metrics : Metrics
deriving DecidableEq

namespace Report

/-- The part of the scheduled events that was cancelled, in percent. -/
def cancellationRate (r : Report) : Binary64 :=
  if r.metrics.scheduled = 0 then Binary64.zero false
  else ((Binary64.ofNat r.metrics.cancelled).div (Binary64.ofNat r.metrics.scheduled)).mul (Binary64.ofNat 100)

/-- The report as text, a line for each item. -/
def render (r : Report) : String :=
  let stopped := match r.stopReason with
    | some reason => reason.render
    | none => "not run"
  "=== Simulation Report ===\n" ++
  "Final time: " ++ r.finalTime.render ++ "\n" ++
  "Stopped: " ++ stopped ++ "\n" ++
  "Seed: " ++ toString r.seed.toNat ++ "\n" ++
  "Events scheduled: " ++ toString r.metrics.scheduled ++ "\n" ++
  "Events executed: " ++ toString r.metrics.executed ++ "\n" ++
  "Events cancelled: " ++ toString r.metrics.cancelled ++ " (" ++ r.cancellationRate.toFixed 2 ++ "%)\n" ++
  "Events pending: " ++ toString r.pending ++ "\n" ++
  "Peak pending: " ++ toString r.metrics.peak ++ "\n"

end Report

end SimKernel
