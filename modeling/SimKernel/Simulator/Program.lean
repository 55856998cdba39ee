import SimKernel.Simulator.Basic

/-!
# Programs

What an action may do: look at the simulator that executes it, send it requests, and change the state of the model. A
program is a tree of such steps, each followed by what comes next for every answer, so every program ends. Its execution
is a function of the simulator and the model (`exec`), and executing two programs one after the other is executing their
sequence (`exec_bind`).

Requests that drive the simulator are answered by a handler. Inside an action they are refused (`Drive.refuse`), since
the simulator is running then.
-/

namespace SimKernel

/-! ## Requests -/

/-- Requests that leave the simulator as it is. -/
inductive Query where
  | now
  | context
  | config
  | rng
  | isPending (id : EventId)
  | delayLeft (id : EventId)
  | pending
  | executed
  | isFinished
  | report

namespace Query

/-- The type of the answers to a query. -/
abbrev Answer : Query → Type
  | now => Time
  | context => ContextId
  | config => Config
  | rng => Rng
  | isPending _ => Bool
  | delayLeft _ => Time
  | pending => Nat
  | executed => Nat
  | isFinished => Bool
  | report => Report

/-- The answer of a simulator. -/
def answer {α : Type} (s : Simulator α) : (q : Query) → Except Fault q.Answer
  | now => .ok s.now
  | context => .ok s.context
  | config => .ok s.config
  | rng => .ok s.rng
  | isPending id => s.isPending id
  | delayLeft id => s.delayLeft id
  | pending => .ok s.pending
  | executed => .ok s.metrics.executed
  | isFinished => .ok s.isFinished
  | report => .ok s.report

end Query

/-- Requests that change the simulator and execute nothing. -/
inductive Call (α : Type) where
  | schedule (delay : Time) (a : α)
  | scheduleIn (context : ContextId) (delay : Time) (a : α)
  | scheduleAt (time : Time) (a : α)
  | scheduleNow (a : α)
  | scheduleDestroy (a : α)
  | cancel (id : EventId)
  | stop
  | stopAt (time : Time)
  | stopAfter (delay : Time)
  | setRng (g : Rng)

namespace Call

variable {α : Type}

/-- The type of the answers to a call. -/
abbrev Answer : Call α → Type
  | schedule .. | scheduleIn .. | scheduleAt .. | stopAt .. | stopAfter .. => Except SimError EventId
  | scheduleNow _ | scheduleDestroy _ => EventId
  | cancel _ => Option (Action α)
  | stop | setRng _ => Unit

/-- The simulator after a request that it may have refused. -/
def keep {β : Type} (s : Simulator α) : Except SimError (β × Simulator α) → Except SimError β × Simulator α
  | .ok (b, s) => (.ok b, s)
  | .error e => (.error e, s)

/-- The answer of a simulator and what becomes of it. -/
def perform (s : Simulator α) : (c : Call α) → Except Fault (c.Answer × Simulator α)
  | schedule delay a => .ok (keep s (s.scheduleIn s.context delay (.perform a)))
  | scheduleIn context delay a => .ok (keep s (s.scheduleIn context delay (.perform a)))
  | scheduleAt time a => (s.scheduleAt time (.perform a)).map (keep s)
  | scheduleNow a => .ok (s.scheduleNow (.perform a))
  | scheduleDestroy a => .ok (s.scheduleDestroy a)
  | cancel id => s.cancel id
  | stop => .ok ((), s.stop)
  | stopAt time => (s.scheduleAt time .stop).map (keep s)
  | stopAfter delay => .ok (keep s (s.scheduleIn s.context delay .stop))
  | setRng g => .ok ((), { s with rng := g })

end Call

/-- Requests that execute events. -/
inductive Drive where
  | run
  | step
  | destroy

namespace Drive

/-- The type of the answers to such a request; tearing down hands back the actions that were not executed. -/
abbrev Answer (α : Type) : Drive → Type
  | run => Except SimError Report
  | step => Except SimError Bool
  | destroy => Except SimError Unit × List α

/-- The answer of a simulator that is executing an action. -/
def refuse (α : Type) : (d : Drive) → d.Answer α
  | run => .error .reentrantRun
  | step => .error .reentrantRun
  | destroy => (.error .reentrantRun, [])

end Drive

/-! ## Programs -/

/-- A program over actions `α` and a model of type `ω` that answers a `ρ` or fails. -/
inductive Program (α ω ρ : Type) where
  | done (r : ρ)
  | fail (e : SimError)
  | fault (f : Fault)
  | ask (q : Query) (next : q.Answer → Program α ω ρ)
  | call (c : Call α) (next : c.Answer → Program α ω ρ)
  | drive (d : Drive) (next : d.Answer α → Program α ω ρ)
  | look (next : ω → Program α ω ρ)
  | change (f : ω → ω) (next : Program α ω ρ)

/-- How requests that drive the simulator are answered. -/
abbrev Handler (α ω : Type) := (d : Drive) → Simulator α → ω → Except Fault (d.Answer α × Simulator α × ω)

/-- Answers every request with a refusal. -/
def Handler.refuse {α ω : Type} : Handler α ω :=
  fun d s w => .ok (Drive.refuse α d, s, w)

/-- What execution comes to: an answer or an error, the simulator and the model. -/
abbrev Outcome (α ω ρ : Type) := Except SimError ρ × Simulator α × ω

namespace Program

variable {α ω ρ σ : Type}

instance : Inhabited (Program α ω ρ) := ⟨fault .exhausted⟩

protected def bind : Program α ω ρ → (ρ → Program α ω σ) → Program α ω σ
  | done r, f => f r
  | fail e, _ => fail e
  | fault e, _ => fault e
  | ask q next, f => ask q fun a => (next a).bind f
  | call c next, f => call c fun a => (next a).bind f
  | drive d next, f => drive d fun a => (next a).bind f
  | look next, f => look fun w => (next w).bind f
  | change g next, f => change g (next.bind f)

instance : Monad (Program α ω) where
  pure := done
  bind := Program.bind

/-- Executes a program. -/
def exec (handle : Handler α ω) : Program α ω ρ → Simulator α → ω → Except Fault (Outcome α ω ρ)
  | done r, s, w => .ok (.ok r, s, w)
  | fail e, s, w => .ok (.error e, s, w)
  | fault f, _, _ => .error f
  | ask q next, s, w =>
    match q.answer s with
    | .ok a => (next a).exec handle s w
    | .error f => .error f
  | call c next, s, w =>
    match c.perform s with
    | .ok (a, s) => (next a).exec handle s w
    | .error f => .error f
  | drive d next, s, w =>
    match handle d s w with
    | .ok (a, s, w) => (next a).exec handle s w
    | .error f => .error f
  | look next, s, w => (next w).exec handle s w
  | change g next, s, w => next.exec handle s (g w)

/-- Executing a sequence is executing one part and then, unless it failed, the other. -/
theorem exec_bind (handle : Handler α ω) (p : Program α ω ρ) (f : ρ → Program α ω σ) (s : Simulator α) (w : ω) :
    (p >>= f).exec handle s w =
      match p.exec handle s w with
      | .ok (.ok r, s, w) => (f r).exec handle s w
      | .ok (.error e, s, w) => .ok (.error e, s, w)
      | .error e => .error e := by
  change (Program.bind p f).exec handle s w = _
  induction p generalizing s w with
  | done r => rfl
  | fail e => rfl
  | fault e => rfl
  | ask q next ih =>
    simp only [Program.bind, exec]
    cases q.answer s with
    | ok a => exact ih a s w
    | error e => rfl
  | call c next ih =>
    simp only [Program.bind, exec]
    cases c.perform s with
    | ok a => exact ih a.1 a.2 w
    | error e => rfl
  | drive d next ih =>
    simp only [Program.bind, exec]
    cases handle d s w with
    | ok a => exact ih a.1 a.2.1 a.2.2
    | error e => rfl
  | look next ih => exact ih w s w
  | change g next ih => exact ih s (g w)

/-! ## Single steps -/

def query (q : Query) : Program α ω q.Answer := ask q done

def request (c : Call α) : Program α ω c.Answer := call c done

def requestDrive (d : Drive) : Program α ω (d.Answer α) := drive d done

/-- The state of the model. -/
def model : Program α ω ω := look done

/-- Changes the state of the model. -/
def modifyModel (f : ω → ω) : Program α ω Unit := change f (done ())

/-- The value, unless there is an error, which the program fails with. -/
def ofExcept : Except SimError ρ → Program α ω ρ
  | .ok r => done r
  | .error e => fail e

/-- The value, unless there is a fault. -/
def ofFaulty : Except Fault ρ → Program α ω ρ
  | .ok r => done r
  | .error f => fault f

/-- The program with its failure as an answer. -/
def attempt : Program α ω ρ → Program α ω (Except SimError ρ)
  | done r => done (.ok r)
  | fail e => done (.error e)
  | fault f => fault f
  | ask q next => ask q fun a => (next a).attempt
  | call c next => call c fun a => (next a).attempt
  | drive d next => drive d fun a => (next a).attempt
  | look next => look fun w => (next w).attempt
  | change f next => change f next.attempt

/-- A value drawn from the generator of the simulator. -/
def random (draw : Rng → Except Fault (ρ × Rng)) : Program α ω ρ := do
  let g ← query .rng
  let (r, g) ← ofFaulty (draw g)
  request (.setRng g)
  return r

end Program

end SimKernel
