import SimKernel.Simulator.Program

/-!
# Running

Execution of events. The meaning of actions is given as a program for each. An action runs on the simulator whose clock
stands at its time; it may schedule and cancel events, but requests to drive the simulator are refused. A run ends when a
stop is requested, when the configured number of events have run, when no event is left, or with the error of an action.

Runs and teardowns may go on for ever, so they take a number of events after which they are given up.
-/

namespace SimKernel

/-- The meaning of actions. -/
abbrev Meaning (α ω : Type) := α → Program α ω Unit

namespace Simulator

variable {α ω : Type}

/-- Executes an action. -/
def perform (meaning : Meaning α ω) (action : Action α) (s : Simulator α) (w : ω) : Except Fault (Outcome α ω Unit) :=
  match action with
  | .stop => .ok (.ok (), s.stop, w)
  | .perform a => (meaning a).exec Handler.refuse s w

/-- Executes the next event, if there is one. -/
def processNext (meaning : Meaning α ω) (s : Simulator α) (w : ω) : Except Fault (Outcome α ω Bool) :=
  match s.nextEvent with
  | (none, s) => .ok (.ok false, s, w)
  | (some r, s) => do
    let s ← s.advance r
    let (result, s, w) ← perform meaning r.action s w
    return (result.map fun _ => true, s, w)

/-- Executes events until something ends the run, but at most `fuel` of them. -/
def runLoop (meaning : Meaning α ω) : Nat → Simulator α → ω → Except Fault (Outcome α ω StopReason)
  | 0, _, _ => .error .exhausted
  | fuel + 1, s, w =>
    if s.stopRequested then .ok (.ok .stopped, s, w)
    else if s.limitReached then .ok (.ok .eventLimit, s, w)
    else
      match processNext meaning s w with
      | .ok (.ok true, s, w) => runLoop meaning fuel s w
      | .ok (.ok false, s, w) => .ok (.ok .queueEmpty, s, w)
      | .ok (.error e, s, w) => .ok (.error e, s, w)
      | .error f => .error f

/-- Executes events in order and reports how the run ended. -/
def run (meaning : Meaning α ω) (fuel : Nat) (s : Simulator α) (w : ω) : Except Fault (Outcome α ω Report) :=
  if s.running then .ok (.error .reentrantRun, s, w)
  else do
    match ← s.armStopTime with
    | (.error e, s) => return (.error e, s, w)
    | (.ok passed, s) =>
      match ← runLoop meaning fuel { s with running := true, stopRequested := passed } w with
      | (.ok reason, s, w) =>
        let s := { s with running := false, stopReason := some reason }
        return (.ok s.report, s, w)
      | (.error e, s, w) => return (.error e, { s with running := false }, w)

/-- Executes the next event and tells whether more are pending. -/
def step (meaning : Meaning α ω) (s : Simulator α) (w : ω) : Except Fault (Outcome α ω Bool) :=
  if s.running then .ok (.error .reentrantRun, s, w)
  else do
    let (result, s, w) ← processNext meaning { s with running := true } w
    let s := { s with running := false }
    return (result.map fun _ => s.pending != 0, s, w)

/-- Executes destroy events until none is left or one fails, but at most `fuel` of them. -/
def destroyLoop (meaning : Meaning α ω) : Nat → Simulator α → ω → Except Fault (Outcome α ω Unit)
  | 0, _, _ => .error .exhausted
  | fuel + 1, s, w =>
    match s.destroyEvents with
    | [] => .ok (.ok (), s, w)
    | e :: rest =>
      let s := { s with
        destroyEvents := rest
        metrics := { s.metrics with executed := s.metrics.executed + 1 } }
      match perform meaning (.perform e.action) s w with
      | .ok (.ok (), s, w) => destroyLoop meaning fuel s w
      | .ok (.error e, s, w) => .ok (.error e, s, w)
      | .error f => .error f

/-- Executes the destroy events, then forgets all events and hands back their actions. -/
def destroy (meaning : Meaning α ω) (fuel : Nat) (s : Simulator α) (w : ω) :
    Except Fault ((Except SimError Unit × List α) × Simulator α × ω) :=
  if s.running then .ok ((.error .reentrantRun, []), s, w)
  else do
    let (result, s, w) ← destroyLoop meaning fuel { s with running := true } w
    let (actions, s) := { s with running := false }.clear
    return ((result, actions), s, w)

/-- Answers requests that drive the simulator by executing events. -/
def handler (meaning : Meaning α ω) (fuel : Nat) : Handler α ω
  | .run, s, w => s.run meaning fuel w
  | .step, s, w => s.step meaning w
  | .destroy, s, w => s.destroy meaning fuel w

end Simulator

end SimKernel
