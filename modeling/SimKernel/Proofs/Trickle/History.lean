import SimKernel.Proofs.Simulator.Table
import SimKernel.Proofs.Trickle.Requests

/-!
# Histories of a trickle timer

What happens to a timer and to its simulator, in order: requests to the timer, its two events, and everything else that
can happen to the simulator. Requests come from anywhere: the driver of the simulator, actions of other events, and the
timer's own callback (`Step`). The timer's actions are its own: nobody else schedules events that perform them.

A history is a path of such steps (`Path`), where further conditions may be put on each step. Whatever happens in the course
of a program that uses a trickle timer is such a history (`path_of_exec`).
-/

namespace SimKernel

variable {α : Type}

/-- The action is that of one of the timer's events. -/
def Trickle.Actions.Owns (actions : Trickle.Actions α) (action : Action α) : Prop :=
  action = .perform actions.fire ∨ action = .perform actions.endInterval

/-- No event of the timer is scheduled or begins. -/
def Deed.Foreign (actions : Trickle.Actions α) (d : Deed α) : Prop :=
  ∀ action, d.action? = some action → ¬ actions.Owns action

/-- No event of the timer is taken away, and not all events are forgotten. -/
def Deed.Spares (actions : Trickle.Actions α) (d : Deed α) : Prop :=
  d ≠ .cleared ∧ ∀ action, d.removed? = some action → ¬ actions.Owns action

namespace Trickle

/-- What happens to a timer. -/
inductive Deed (α : Type) where
  | enabled (result : Except SimError Unit)
  | reset (result : Except SimError Unit)
  | stopped
  | heardConsistent
  /-- An inconsistency was recorded, which started the timer again or not. -/
  | heardInconsistent (restarted : Bool) (result : Except SimError Unit)
  | parametersSet
  | callbackSet
  /-- The random point was reached, and what was there to invoke. -/
  | fired (callback : Option α)
  /-- The period was over, and the next one was begun. -/
  | ended (result : Except SimError Unit)
  /-- Something that is not about the timer. -/
  | other (d : SimKernel.Deed α)

/-- What happened, and the system after it. -/
structure Moment (α : Type) where
  deed : Deed α
  state : System α

/-- A stopped timer is running again. -/
def Deed.Starts : Deed α → Prop
  | enabled _ | reset _ | heardInconsistent true _ => True
  | _ => False

/-- The answer to the attempt to begin a period. -/
def Deed.result? : Deed α → Option (Except SimError Unit)
  | enabled result | reset result | heardInconsistent true result | ended result => some result
  | _ => none

theorem Deed.result?_eq_none {d : Deed α} (hstart : ¬ d.Starts) (hended : ∀ result, d ≠ .ended result) :
    d.result? = none := by
  cases d with
  | enabled | reset => exact absurd trivial hstart
  | heardInconsistent restarted =>
    cases restarted with
    | true => exact absurd trivial hstart
    | false => rfl
  | ended result => exact absurd rfl (hended result)
  | stopped | heardConsistent | parametersSet | callbackSet | fired | other => rfl

/-- What may happen next to a timer and its simulator. -/
inductive Step (actions : Actions α) (x : System α) : Moment α → Prop
  | enabled {ω : Type} {handle : Handler α ω} {w w' : ω} {result : Except SimError Unit} {t : Trickle α} {s : Simulator α}
      (h : (x.timer.enable actions).exec handle x.sim w = .ok (.ok (result, t), s, w')) :
      Step actions x ⟨.enabled result, s, t⟩
  | reset {ω : Type} {handle : Handler α ω} {w w' : ω} {result : Except SimError Unit} {t : Trickle α} {s : Simulator α}
      (h : (x.timer.reset actions).exec handle x.sim w = .ok (.ok (result, t), s, w')) :
      Step actions x ⟨.reset result, s, t⟩
  | stopped {ω : Type} {handle : Handler α ω} {w w' : ω} {t : Trickle α} {s : Simulator α}
      (h : x.timer.stop.exec handle x.sim w = .ok (.ok t, s, w')) : Step actions x ⟨.stopped, s, t⟩
  | heardConsistent : Step actions x ⟨.heardConsistent, x.sim, x.timer.hearConsistent⟩
  | heardInconsistent {ω : Type} {handle : Handler α ω} {w w' : ω} {result : Except SimError Unit} {t : Trickle α}
      {s : Simulator α} (h : (x.timer.hearInconsistent actions).exec handle x.sim w = .ok (.ok (result, t), s, w')) :
      Step actions x ⟨.heardInconsistent (x.timer.minInterval < x.timer.currentInterval) result, s, t⟩
  | parametersSet {minInterval : Time} {doublings redundancy : Nat} {t : Trickle α}
      (h : x.timer.setParameters minInterval doublings redundancy = .ok t) : Step actions x ⟨.parametersSet, x.sim, t⟩
  | callbackSet (a : α) : Step actions x ⟨.callbackSet, x.sim, { x.timer with callback := some a }⟩
  | fired {r : EventRecord (Action α)} {s : Simulator α} (h : x.sim.Step ⟨.began r, s⟩)
      (ha : r.action = .perform actions.fire) : Step actions x ⟨.fired x.timer.fire.1, s, x.timer.fire.2⟩
  | ended {r : EventRecord (Action α)} {s : Simulator α} (h : x.sim.Step ⟨.began r, s⟩)
      (ha : r.action = .perform actions.endInterval) {ω : Type} {handle : Handler α ω} {w w' : ω}
      {result : Except SimError Unit} {t : Trickle α} {s' : Simulator α}
      (h' : (x.timer.endInterval actions).exec handle s w = .ok (.ok (result, t), s', w')) :
      Step actions x ⟨.ended result, s', t⟩
  | other {d : SimKernel.Deed α} {s : Simulator α} (h : x.sim.Step ⟨d, s⟩) (hd : d.Foreign actions) :
      Step actions x ⟨.other d, s, x.timer⟩

/-- The moments lead from one system to another by steps of which `R` holds. -/
inductive Path (R : System α → Moment α → Prop) : System α → List (Moment α) → System α → Prop
  | nil (x : System α) : Path R x [] x
  | cons {x y : System α} {m : Moment α} {ms : List (Moment α)} (h : R x m) (hs : Path R m.state ms y) :
      Path R x (m :: ms) y

variable {R : System α → Moment α → Prop} {x y : System α} {ms : List (Moment α)}

/-- What every step keeps holds at every moment. -/
theorem Path.invariant {I : System α → Prop} (step : ∀ x m, I x → R x m → I m.state) (h : Path R x ms y) (hx : I x) :
    I y ∧ ∀ m ∈ ms, I m.state := by
  induction h with
  | nil x => exact ⟨hx, fun m hm => absurd hm List.not_mem_nil⟩
  | cons hr _ ih =>
    obtain ⟨hy, hms⟩ := ih (step _ _ hx hr)
    refine ⟨hy, ?_⟩
    intro m hm
    rcases List.mem_cons.1 hm with rfl | hm
    · exact step _ _ hx hr
    · exact hms m hm

end Trickle

end SimKernel
