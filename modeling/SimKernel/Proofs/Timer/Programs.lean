import SimKernel.Proofs.Simulator.Passage
import SimKernel.Proofs.Timer.History

/-!
# Programs that use a timer

A model may keep a timer somewhere. A program uses the timer if it changes it by requests only (`Uses`). Whatever such a
program does, and whatever the actions do that it sets off, is a history of the timer and its simulator at which the same
events begin (`path_of_exec`).
-/

namespace SimKernel.Timer

open Program

variable {α ω ρ : Type}

/-! ## Requests are plain -/

/-- To cancel takes one request to the simulator at most. -/
theorem plain_cancel (t : Timer α) : (t.cancel : Program α ω _).Plain fun _ => True := by
  unfold cancel
  cases t.event with
  | none => trivial
  | some id => exact ⟨trivial, fun _ => trivial⟩

theorem plain_armAfter (t : Timer α) (delay : Time) : (t.armAfter delay : Program α ω _).Plain fun _ => True := by
  unfold armAfter
  cases t.callback with
  | none => trivial
  | some a =>
    refine t.plain_cancel.bind fun t' => ⟨trivial, ?_⟩
    rintro (e | id) <;> trivial

theorem plain_state (t : Timer α) : (t.state : Program α ω _).Plain fun _ => True := by
  unfold Timer.state
  split
  · trivial
  · exact fun _ => trivial
  · trivial

theorem plain_delayLeft (t : Timer α) : (t.delayLeft : Program α ω _).Plain fun _ => True := by
  unfold delayLeft
  split
  · trivial
  · exact fun _ => trivial
  · trivial

/-- No request drives the simulator or looks at the model. -/
theorem plain_program (q : Request α) (t : Timer α) : (q.program t : Program α ω _).Plain fun _ => True := by
  cases q with
  | setFunction | setDelay => trivial
  | arm => exact t.plain_armAfter _
  | armAfter delay => exact t.plain_armAfter delay
  | cancel => exact t.plain_cancel.bind fun _ => trivial
  | suspend =>
    refine t.plain_state.bind fun st => ?_
    split
    · exact t.plain_delayLeft.bind fun _ => t.plain_cancel.bind fun _ => trivial
    · trivial
  | resume =>
    change (resume t).Plain _
    unfold resume
    cases t.remaining with
    | none => trivial
    | some delay => exact t.plain_armAfter delay

/-! ## Programs of the model -/

/-- The program does nothing to the timer but make requests to it. -/
abbrev Uses (P : Site (Timer α) ω) (p : Program α ω ρ) : Prop := P.Uses (fun _ => True) Request.program p

/-- A history of the timer in the model leads from one to the other, and the events begin at it. -/
def passage (P : Site (Timer α) ω) : Simulator.Passage α ω :=
  fun s w rs s' w' => ∃ ms, Path ⟨s, P.get w⟩ ms ⟨s', P.get w'⟩ ∧ began ms = rs

variable (P : Site (Timer α) ω)

/-- What happens after something else goes on with its history. -/
theorem composes_passage : (passage P).Composes where
  refl s w := ⟨[], .nil _, rfl⟩
  trans h h' := by
    obtain ⟨ms, hms, rfl⟩ := h
    obtain ⟨ns, hns, rfl⟩ := h'
    exact ⟨ms ++ ns, hms.append hns, List.filterMap_append⟩

/-- What happens to the simulator is nothing to the timer. -/
theorem passage_of_step {s : Simulator α} {m : SimKernel.Moment α} (w : ω) (h : s.Step m) :
    passage P s w m.deed.began?.toList m.state w := by
  refine ⟨[⟨.other m.deed, m.state, P.get w⟩], .cons (.other h) (.nil _), ?_⟩
  rw [began_cons]
  exact List.append_nil _

/-- A request is one moment of the timer's history, at which no event begins. -/
theorem bears_passage : P.Bears (fun _ => True) Request.program (passage P) where
  toComposes := composes_passage P
  call w _ hc := passage_of_step P w (.called hc)
  only hw h := by
    obtain ⟨ms, hms, hbegan⟩ := h
    exact ⟨ms, hw ▸ hms, hbegan⟩
  update {handle q s s' w r t} h := by
    refine ⟨[⟨.requested q r, s', t⟩], .cons (.requested h) ?_, rfl⟩
    rw [P.get_set]
    exact .nil _

variable {P} {meaning : Meaning α ω}

/-- An event begins as a moment of the history, and its action follows with its requests. -/
theorem closed_passage (hm : ∀ a, Uses P (meaning a)) : (passage P).Closed meaning where
  toComposes := composes_passage P
  step w h _ := passage_of_step P w h
  event h _ hx :=
    (composes_passage P).trans (passage_of_step P _ h) ((hm _).action (bears_passage P) plain_program hx)
  teardown h hx :=
    (composes_passage P).trans (passage_of_step P _ (.tornDown h)) ((hm _).action (bears_passage P) plain_program hx)

/-- **Programs that use a timer.** If a program and all actions do nothing to the timer of the model but make requests to
it, then what happens in the course of the program is a history of the timer and its simulator, at which the same events
begin. -/
theorem path_of_exec (hm : ∀ a, Uses P (meaning a)) {fuel : Nat} {p : Program α ω ρ} (hp : Uses P p) {s : Simulator α}
    {w : ω} {x : Outcome α ω ρ} (h : p.exec (Simulator.handler meaning fuel) s w = .ok x) :
    ∃ ms, Path ⟨s, P.get w⟩ ms ⟨x.2.1, P.get x.2.2⟩ ∧
      began ms = executed (p.moments (Simulator.handler meaning fuel) (Simulator.within meaning fuel) s w) :=
  hp.passage (bears_passage P) plain_program h _ fun _ _ _ _ hd => (closed_passage hm).handler hd

end SimKernel.Timer
