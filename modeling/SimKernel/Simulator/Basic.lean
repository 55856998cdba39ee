import SimKernel.Agenda.Queue
import SimKernel.Agenda.Slots
import SimKernel.Config
import SimKernel.Random.Generator
import SimKernel.Report

/-!
# The simulator

Virtual time and the events scheduled on it. An event is an action with a time and a context; the actions are values of
any type, whose meaning is given elsewhere. Events run in the order of their times, and in the order in which they were
scheduled where the times agree.

The pending events lie in slots, and the queue holds a key for each. A cancelled event leaves its slot at once, while its
key stays and is passed over when its turn comes (`nextEvent`). Destroy events have no time; they run, in the order in
which they were registered, when the simulation is torn down.

Nothing here executes an action: a request that takes an event away hands its action back.
-/

namespace SimKernel

/-- What an event does: it stops the run, or it performs an action of the model. -/
inductive Action (α : Type) where
  | stop
  | perform (a : α)
deriving DecidableEq, Repr

/-- The action of the model, if there is one. -/
def Action.performed? {α : Type} : Action α → Option α
  | stop => none
  | perform a => some a

/-- An event that runs when the simulation is torn down. -/
structure DestroyEvent (α : Type) where
  uid : Nat
  action : α
deriving DecidableEq, Repr

/-- A clock and the events scheduled on it. -/
structure Simulator (α : Type) where
  /-- What tells this simulator from others. -/
  owner : Nat
  config : Config
  now : Time
  context : ContextId
  queue : EventQueue
  slots : EventSlots (Action α)
  nextUid : Nat
  destroyEvents : List (DestroyEvent α)
  rng : Rng
  /-- An action is being executed. -/
  running : Bool
  stopRequested : Bool
  /-- The stop time of the configuration has been taken care of. -/
  stopTimeArmed : Bool
  stopReason : Option StopReason
  metrics : Metrics

namespace Simulator

variable {α : Type}

/-- The slot in the names of destroy events. -/
def destroySlot : Nat := UInt32.size - 1

/-- A new simulator, whose settings are not checked. -/
def ofConfig (owner : Nat) (config : Config) : Simulator α where
  owner
  config
  now := Time.zero
  context := ContextId.none
  queue := EventQueue.empty
  slots := EventSlots.empty
  nextUid := 0
  destroyEvents := []
  rng := Rng.ofSeed config.seed
  running := false
  stopRequested := false
  stopTimeArmed := false
  stopReason := none
  metrics := {}

/-- A new simulator, if a run can honour its settings. -/
def ofConfig? (owner : Nat) (config : Config) : Except SimError (Simulator α) := do
  config.validate
  return ofConfig owner config

instance : Inhabited (Simulator α) := ⟨ofConfig 0 {}⟩

/-! ## Looking at the simulator -/

/-- The number of pending events, without destroy events. -/
def pending (s : Simulator α) : Nat := s.slots.live

/-- There is nothing to run, or a stop is requested. -/
def isFinished (s : Simulator α) : Bool :=
  s.pending == 0 || s.stopRequested

/-- A fault unless the event was issued by this simulator. -/
def checkIssued (s : Simulator α) (id : EventId) : Except Fault Unit :=
  if id.owner = s.owner ∧ id.uid < s.nextUid then .ok () else .error (.foreignEvent id.uid)

/-- The event waits for its turn. -/
def isPending (s : Simulator α) (id : EventId) : Except Fault Bool := do
  s.checkIssued id
  if id.slot = destroySlot then return s.destroyEvents.any fun e => e.uid == id.uid
  else return (s.slots.get? id.slot id.uid).isSome

/-- The time until the event runs; zero if it does not wait, and for destroy events. -/
def delayLeft (s : Simulator α) (id : EventId) : Except Fault Time := do
  s.checkIssued id
  if id.slot = destroySlot then return Time.zero
  else
    match s.slots.get? id.slot id.uid with
    | some r => r.time.sub s.now
    | none => return Time.zero

/-- What the simulation did so far. -/
def report (s : Simulator α) : Report where
  finalTime := s.now
  stopReason := s.stopReason
  seed := s.rng.seed
  pending := s.pending
  metrics := s.metrics

/-! ## Scheduling -/

/-- Adds an event and names it. -/
def insert (s : Simulator α) (time : Time) (context : ContextId) (action : Action α) : EventId × Simulator α :=
  let uid := s.nextUid
  let (slot, slots) := s.slots.insert ⟨uid, time, context, action⟩
  (⟨uid, s.owner, slot⟩,
    { s with
      slots
      nextUid := uid + 1
      queue := s.queue.push ⟨time, uid, slot⟩
      metrics := { s.metrics with scheduled := s.metrics.scheduled + 1, peak := max s.metrics.peak slots.live } })

/-- Adds an event after a delay, of which whole ticks count. -/
def scheduleIn (s : Simulator α) (context : ContextId) (delay : Time) (action : Action α) :
    Except SimError (EventId × Simulator α) :=
  if delay.isNegative then .error (.negativeDelay delay)
  else
    let delay := s.config.resolution.quantize delay
    match s.now.checkedAdd delay with
    | some time => .ok (s.insert time context action)
    | none => .error (.invalidState ("event time overflows: now " ++ s.now.render ++ " + delay " ++ delay.render))

/-- Adds an event at a time, in the current context. -/
def scheduleAt (s : Simulator α) (time : Time) (action : Action α) :
    Except Fault (Except SimError (EventId × Simulator α)) := do
  let delay ← time.sub s.now
  return s.scheduleIn s.context delay action

/-- Adds an event at the current time, in the current context. -/
def scheduleNow (s : Simulator α) (action : Action α) : EventId × Simulator α :=
  s.insert s.now s.context action

/-- Adds an event that runs when the simulation is torn down. -/
def scheduleDestroy (s : Simulator α) (action : α) : EventId × Simulator α :=
  (⟨s.nextUid, s.owner, destroySlot⟩,
    { s with
      nextUid := s.nextUid + 1
      destroyEvents := s.destroyEvents ++ [⟨s.nextUid, action⟩]
      metrics := { s.metrics with scheduled := s.metrics.scheduled + 1 } })

/-- The simulator after one more event was cancelled. -/
def countCancelled (s : Simulator α) : Simulator α :=
  { s with metrics := { s.metrics with cancelled := s.metrics.cancelled + 1 } }

/-- Takes a waiting event away and hands its action back; an event that does not wait is left alone. -/
def cancel (s : Simulator α) (id : EventId) : Except Fault (Option (Action α) × Simulator α) := do
  s.checkIssued id
  if id.slot = destroySlot then
    match s.destroyEvents.find? fun e => e.uid == id.uid with
    | some e =>
      let left := s.destroyEvents.filter fun e => e.uid != id.uid
      return (some (.perform e.action), { s with destroyEvents := left }.countCancelled)
    | none => return (none, s)
  else
    match s.slots.take? id.slot id.uid with
    | some (r, slots) => return (some r.action, { s with slots }.countCancelled)
    | none => return (none, s)

/-- Lets the run end after the current event. -/
def stop (s : Simulator α) : Simulator α :=
  { s with stopRequested := true }

/-! ## Advancing -/

/-- Takes keys from the queue up to the first one whose event still waits, and that event from its slot. -/
def nextEvent (s : Simulator α) : Option (EventRecord (Action α)) × Simulator α :=
  match _h : s.queue.pop? with
  | none => (none, s)
  | some (key, queue) =>
    match s.slots.take? key.slot key.sequence with
    | some (r, slots) => (some r, { s with queue, slots })
    | none => nextEvent { s with queue, metrics := { s.metrics with stale := s.metrics.stale + 1 } }
termination_by s.queue.size
decreasing_by have := EventQueue.size_pop? _h; omega

/-- Moves the clock to an event that is about to run. -/
def advance (s : Simulator α) (r : EventRecord (Action α)) : Except Fault (Simulator α) :=
  if r.time < s.now then .error .clockMovedBack
  else
    .ok { s with
      now := r.time
      context := r.context
      metrics := { s.metrics with executed := s.metrics.executed + 1 } }

/-- Arms the stop time of the configuration, once; the answer tells that it has passed already. -/
def armStopTime (s : Simulator α) : Except Fault (Except SimError Bool × Simulator α) :=
  if s.stopTimeArmed then .ok (.ok false, s)
  else
    let s := { s with stopTimeArmed := true }
    match s.config.stopTime with
    | none => .ok (.ok false, s)
    | some time =>
      if time < s.now then .ok (.ok true, s)
      else do
        match ← s.scheduleAt time .stop with
        | .ok (_, s) => return (.ok false, s)
        | .error e => return (.error e, s)

/-- As many events as the configuration allows have run. -/
def limitReached (s : Simulator α) : Bool :=
  match s.config.maxEvents with
  | some limit => limit.toNat ≤ s.metrics.executed
  | none => false

/-- Forgets all events and hands the actions of the model back. -/
def clear (s : Simulator α) : List α × Simulator α :=
  (s.slots.records.filterMap (fun r => r.action.performed?) ++ s.destroyEvents.map DestroyEvent.action,
    { s with queue := EventQueue.empty, slots := EventSlots.empty, destroyEvents := [] })

end Simulator

end SimKernel
