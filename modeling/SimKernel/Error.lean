import SimKernel.Packet.Error
import SimKernel.Time.Text

/-!
# Simulation errors
-/

namespace SimKernel

/-- The reasons why a simulator refuses a request, or an action fails. -/
inductive SimError where
  /-- An event was to be scheduled before the current time. -/
  | negativeDelay (delay : Time)
  /-- The simulator was to be driven by an action that it is executing. -/
  | reentrantRun
  | invalidConfig (reason : String)
  | invalidState (reason : String)
  /-- A model failed, for the reason given. -/
  | model (reason : String)
deriving DecidableEq

namespace SimError

/-- The text shown for an error. -/
def message : SimError → String
  | negativeDelay delay => "cannot schedule into the past: delay " ++ delay.render ++ " is negative"
  | reentrantRun => "Simulator::run called re-entrantly from inside an event action"
  | invalidConfig reason => "invalid simulator configuration: " ++ reason
  | invalidState reason => "invalid simulation state: " ++ reason
  | model reason => "model error: " ++ reason

/-- The text of the error behind this one. -/
def source? : SimError → Option String
  | model reason => some reason
  | _ => none

/-- A time that cannot be read is an invalid configuration. -/
def ofTimeError (e : TimeError) : SimError := invalidConfig e.message

/-- A packet operation that fails is a failure of the model. -/
def ofPacketError (e : PacketError) : SimError := model e.message

end SimError

end SimKernel
