import SimKernel.Proofs.Simulator.History

/-!
# Behind the veil

A veiled program (`Program.veil`) cannot tell which numbers and slots its events have: what it gets for names are the numbers
0, 1, 2 and so on, in the order in which it got them, and the real names stay on the desk. It sees how many events are
scheduled, cancelled or pending only as far as they are its own.

Behind its back, requests are inserted: extra events are scheduled and cancelled, at points that are counted throughout a
history, in actions as well as in the program that drives the simulator (`Insertion`). The extra events have the action
`none`, and those of the program are `some` action.
-/

namespace SimKernel

variable {α ω ρ : Type}

/-- What lies between a program and the simulator. -/
structure Desk (ω : Type) where
  /-- The model of the program. -/
  model : ω
  /-- The real names of the events that the program has got names of. -/
  names : List EventId := []
  /-- The names of the extra events. -/
  extras : List EventId := []
  /-- The number of points that have been passed. -/
  points : Nat := 0

/-- A name is taken down. -/
def Desk.noted (d : Desk ω) (id : EventId) : Desk ω := { d with names := d.names ++ [id] }

/-- An extra event is taken down. -/
def Desk.planted (d : Desk ω) (id : EventId) : Desk ω := { d with extras := d.extras ++ [id] }

/-- A request behind the back of a program: an extra event is scheduled, or one of them is cancelled. -/
inductive Insertion where
  | schedule (context : ContextId) (delay : Time)
  | cancel (n : Nat)
deriving DecidableEq

/-- The requests that are inserted at each point. -/
abbrev Insertions := Nat → List Insertion

/-- Nothing is inserted. -/
def Insertions.none : Insertions := fun _ => []

/-- The action belongs to an extra event. -/
def Action.isExtra : Action (Option α) → Bool
  | perform .none => true
  | _ => false

/-- The action of the program, if the event is not an extra one. -/
def Action.own? : Action (Option α) → Option (Action α)
  | stop => some stop
  | perform a => a.map perform

/-- The report with another number of pending events and without the counters of events that were not executed. -/
def Report.veil (r : Report) (pending : Nat) : Report :=
  { r with pending, metrics := { executed := r.metrics.executed } }

namespace Program

/-- Takes a name down and gives out its number. -/
def note (id : EventId) : Program (Option α) (Desk ω) EventId :=
  look fun d => change (fun d => d.noted id) (done ⟨d.names.length, 0, 0⟩)

/-- Takes the name down, if there is one. -/
def noteAny : Except SimError EventId → Program (Option α) (Desk ω) (Except SimError EventId)
  | .ok id => (note id).bind fun id => done (.ok id)
  | .error e => done (.error e)

/-- The name with a number. -/
def lookUp (id : EventId) : Program (Option α) (Desk ω) EventId :=
  look fun d =>
    match d.names[id.uid]? with
    | some id => done id
    | none => fault (.foreignEvent id.uid)

/-- How many of the events are pending. -/
def countPending : List EventId → Program (Option α) (Desk ω) Nat
  | [] => done 0
  | id :: ids => ask (.isPending id) fun b => (countPending ids).bind fun n => done (if b then n + 1 else n)

/-- The number of pending events besides the extra ones. -/
def ownPending : Program (Option α) (Desk ω) Nat :=
  ask .pending fun n => look fun d => (countPending d.extras).bind fun k => done (n - k)

end Program

open Program

/-- Scheduling and cancelling of extra events. -/
def Insertion.insert : Insertion → Program (Option α) (Desk ω) Unit
  | schedule context delay =>
    call (.scheduleIn context delay none) fun
      | .ok id => change (fun d => d.planted id) (done ())
      | .error _ => done ()
  | cancel n =>
    look fun d =>
      match d.extras[n]? with
      | some id => call (.cancel id) fun _ => done ()
      | none => done ()

/-- All requests that are inserted at one point. -/
def Insertion.insertAll : List Insertion → Program (Option α) (Desk ω) Unit
  | [] => done ()
  | i :: is => i.insert.bind fun _ => insertAll is

/-- The next point is passed. -/
def Insertions.pass (insertions : Insertions) : Program (Option α) (Desk ω) Unit :=
  look fun d => change (fun d => { d with points := d.points + 1 }) (Insertion.insertAll (insertions d.points))

/-- A question about events goes by their real names, and extra events are not counted. -/
def Query.veil : (q : Query) → Program (Option α) (Desk ω) q.Answer
  | .isPending id => (lookUp id).bind fun id => query (.isPending id)
  | .delayLeft id => (lookUp id).bind fun id => query (.delayLeft id)
  | .pending => ownPending
  | .isFinished => ask .isFinished fun b => ownPending.bind fun n => done (b || n == 0)
  | .report => ask .report fun r => ownPending.bind fun n => done (r.veil n)
  | q => query q

/-- Real names are taken down, and events are cancelled by them. -/
def Call.veil : (c : Call α) → Program (Option α) (Desk ω) c.Answer
  | .schedule delay a => (request (.schedule delay (some a))).bind noteAny
  | .scheduleIn context delay a => (request (.scheduleIn context delay (some a))).bind noteAny
  | .scheduleAt time a => (request (.scheduleAt time (some a))).bind noteAny
  | .scheduleNow a => (request (.scheduleNow (some a))).bind note
  | .scheduleDestroy a => (request (.scheduleDestroy (some a))).bind note
  | .cancel id => (lookUp id).bind fun id => call (.cancel id) fun answer => done (answer.bind Action.own?)
  | .stop => request .stop
  | .stopAt time => (request (.stopAt time)).bind noteAny
  | .stopAfter delay => (request (.stopAfter delay)).bind noteAny
  | .setRng g => request (.setRng g)

/-- What is said about pending events is said without the extra ones, and events that a teardown forgets are not shown. -/
def Drive.veil : (d : Drive) → Program (Option α) (Desk ω) (d.Answer α)
  | .run => drive .run fun answer => ownPending.bind fun n => done (answer.map fun r => r.veil n)
  | .step => drive .step fun answer => ownPending.bind fun n => done (answer.map fun _ => n != 0)
  | .destroy => drive .destroy fun answer => done (answer.1, [])

/-- The program behind the veil. -/
def Program.veil (insertions : Insertions) : Program α ω ρ → Program (Option α) (Desk ω) ρ
  | done r => insertions.pass.bind fun _ => done r
  | fail e => insertions.pass.bind fun _ => fail e
  | fault f => fault f
  | ask q next => insertions.pass.bind fun _ => q.veil.bind fun a => (next a).veil insertions
  | call c next => insertions.pass.bind fun _ => c.veil.bind fun a => (next a).veil insertions
  | drive d next => insertions.pass.bind fun _ => d.veil.bind fun a => (next a).veil insertions
  | look next => look fun d => (next d.model).veil insertions
  | change g next => change (fun d => { d with model := g d.model }) (next.veil insertions)

/-- The actions behind the veil. -/
def Meaning.veil (insertions : Insertions) (meaning : Meaning α ω) : Meaning (Option α) (Desk ω)
  | none => done ()
  | some a => (meaning a).veil insertions

end SimKernel
