import SimKernel.Proofs.Simulator.Passage
import SimKernel.Proofs.Trickle.History

/-!
# Programs that use a trickle timer

A model may keep a trickle timer somewhere. A program uses the timer if it changes it by requests only and schedules none of
its events (`Uses`). The timer's own two actions first do to the timer what its random point and the end of its period do, and
then go on with a program that uses it; all other actions are such programs (`Meant`).

Whatever such a program does, and whatever the actions do that it sets off, is a history of the timer and its simulator, at
which the same events begin (`path_of_exec`). An event of the timer begins together with what it does to the timer, so it is
one moment of the history. None of its events waits for the teardown, since nobody registers one (`Unregistered`).
-/

namespace SimKernel

variable {α ω ρ : Type}

/-! ## Events that wait for the teardown -/

namespace Simulator

variable {s s' : Simulator α} {e : DestroyEvent α}

/-- To look for the next event is nothing to the destroy events. -/
theorem nextEvent_destroyEvents (s : Simulator α) : s.nextEvent.2.destroyEvents = s.destroyEvents := by
  fun_induction nextEvent s with
  | case1 | case2 => rfl
  | case3 s key queue hp ht ih => exact ih

/-- Only one request registers events for the teardown. -/
theorem mem_destroyEvents_of_perform {c : Call α} {a : c.Answer} (h : c.perform s = .ok (a, s'))
    (he : e ∈ s'.destroyEvents) : e ∈ s.destroyEvents ∨ c = .scheduleDestroy e.action := by
  cases c with
  | schedule | scheduleIn | stopAfter =>
    rcases keep_cases (Except.ok.inj h) with rfl | ⟨time, -, rfl⟩ <;> exact .inl he
  | scheduleAt | stopAt =>
    rcases keep_scheduleAt_cases h with rfl | ⟨time, -, rfl⟩ <;> exact .inl he
  | scheduleNow | stop | setRng => cases h; exact .inl he
  | cancel id =>
    rcases cancel_eq_ok h with ⟨-, rfl, -⟩ | ⟨e', -, -, -, -, rfl⟩ | ⟨r, slots, -, -, -, rfl⟩
    · exact .inl he
    · exact .inl (List.mem_of_mem_filter he)
    · exact .inl he
  | scheduleDestroy a =>
    cases h
    rcases List.mem_append.1 he with he | he
    · exact .inl he
    · cases List.mem_singleton.1 he
      exact .inr rfl

/-- A destroy event was there before, or it was registered in this step. -/
theorem Step.mem_destroyEvents {m : Moment α} (h : s.Step m) (he : e ∈ m.state.destroyEvents) :
    e ∈ s.destroyEvents ∨ ∃ answer, m.deed = .called (.scheduleDestroy e.action) answer := by
  cases h with
  | called hc =>
    rcases mem_destroyEvents_of_perform hc he with he | rfl
    · exact .inl he
    · exact .inr ⟨_, rfl⟩
  | @began r s₁ s₂ hn ha =>
    obtain ⟨-, rfl⟩ := advance_eq_ok ha
    exact .inl (nextEvent_destroyEvents s ▸ hn ▸ he)
  | @idled s₁ hn => exact .inl (nextEvent_destroyEvents s ▸ hn ▸ he)
  | tornDown h => exact .inl (h ▸ List.mem_cons_of_mem _ he)
  | cleared => cases he
  | switched => exact .inl he

end Simulator

namespace Trickle

open Program

/-! ## Requests -/

/-- A request to a trickle timer. -/
inductive Request (α : Type) where
  | enable
  | reset
  | stop
  | hearConsistent
  | hearInconsistent
  | setParameters (minInterval : Time) (doublings redundancy : Nat)
  | setCallback (a : α)

/-- The answer to a request, and what becomes of the timer. -/
def Request.program (actions : Actions α) : Request α → Trickle α → Program α ω (Except SimError Unit × Trickle α)
  | enable, t => t.enable actions
  | reset, t => t.reset actions
  | stop, t => do return (.ok (), ← t.stop)
  | hearConsistent, t => return (.ok (), t.hearConsistent)
  | hearInconsistent, t => t.hearInconsistent actions
  | setParameters minInterval doublings redundancy, t =>
    match t.setParameters minInterval doublings redundancy with
    | .ok t => return (.ok (), t)
    | .error e => return (.error e, t)
  | setCallback a, t => return (.ok (), { t with callback := some a })

/-- The request registers no event for the teardown. -/
def Fleeting (c : Call α) : Prop := ∀ a, c ≠ .scheduleDestroy a

variable {actions : Actions α}

theorem plain_cancelEvents (t : Trickle α) : (t.cancelEvents : Program α ω _).Plain Fleeting := by
  unfold cancelEvents
  cases t.timerEvent <;> cases t.intervalEvent
  · trivial
  · exact ⟨fun _ => nofun, fun _ => trivial⟩
  · exact ⟨fun _ => nofun, fun _ => trivial⟩
  · exact ⟨fun _ => nofun, fun _ => ⟨fun _ => nofun, fun _ => trivial⟩⟩

theorem plain_startInterval (t : Trickle α) : (startInterval actions t : Program α ω _).Plain Fleeting := by
  refine ⟨fun _ => nofun, fun answer => ?_⟩
  cases answer with
  | error e => trivial
  | ok id =>
    refine (plain_random fun _ _ => nofun).bind fun fraction => ⟨fun _ => nofun, fun answer => ?_⟩
    cases answer <;> trivial

theorem plain_endInterval (t : Trickle α) : (endInterval actions t : Program α ω _).Plain Fleeting := by
  change (Program.bind (ofFaulty (t.currentInterval.mul 2)) _).Plain Fleeting
  cases t.currentInterval.mul 2 with
  | error f => trivial
  | ok doubled => exact plain_startInterval _

theorem plain_drawFactor (t : Trickle α) : (t.drawFactor : Program α ω _).Plain Fleeting := by
  refine (plain_random fun _ _ => nofun).bind fun whole => ?_
  split
  · refine (plain_random fun _ _ => nofun).bind fun _ => ?_
    trivial
  · trivial

theorem plain_reset (t : Trickle α) : (reset actions t : Program α ω _).Plain Fleeting :=
  t.plain_cancelEvents.bind fun _ => plain_startInterval _

/-- No request drives the simulator or looks at the model, and none registers a destroy event. -/
theorem plain_program (q : Request α) (t : Trickle α) : (q.program actions t : Program α ω _).Plain Fleeting := by
  cases q with
  | enable => exact t.plain_drawFactor.bind fun _ => plain_startInterval _
  | reset => exact t.plain_reset
  | stop =>
    refine Plain.bind (p := t.stop) ?_ fun _ => trivial
    exact t.plain_cancelEvents.bind fun _ => trivial
  | hearConsistent | setCallback => trivial
  | hearInconsistent =>
    change (hearInconsistent actions t).Plain Fleeting
    unfold hearInconsistent
    split
    · exact t.plain_reset
    · trivial
  | setParameters minInterval doublings redundancy =>
    simp only [Request.program]
    cases t.setParameters minInterval doublings redundancy <;> trivial

/-! ## Histories -/

/-- The actions of the events that begin at a moment of the timer. -/
def Deed.begun? (actions : Actions α) : Deed α → Option (Action α)
  | fired _ => some (.perform actions.fire)
  | ended _ => some (.perform actions.endInterval)
  | other d => d.began?.map EventRecord.action
  | _ => none

/-- The actions of the events that begin in the course of a history. -/
def begun (actions : Actions α) (ms : List (Moment α)) : List (Action α) := ms.filterMap fun m => m.deed.begun? actions

theorem Path.append {R : System α → Moment α → Prop} {x y z : System α} {ms ns : List (Moment α)} (h : Path R x ms y)
    (h' : Path R y ns z) : Path R x (ms ++ ns) z := by
  induction h with
  | nil => exact h'
  | cons hr _ ih => exact .cons hr (ih h')

/-- A request is a step at which no event begins, unless it changes nothing. -/
theorem step_of_request {handle : Handler α ω} {q : Request α} {s s' : Simulator α} {t t' : Trickle α} {w w' : ω}
    {result : Except SimError Unit} (h : (q.program actions t).exec handle s w = .ok (.ok (result, t'), s', w')) :
    (∃ d, Step actions ⟨s, t⟩ ⟨d, s', t'⟩ ∧ d.begun? actions = none) ∨ s' = s ∧ t' = t := by
  cases q with
  | enable => exact .inl ⟨_, .enabled h, rfl⟩
  | reset => exact .inl ⟨_, .reset h, rfl⟩
  | stop =>
    obtain ⟨t₁, s₁, w₁, hstop, hrest⟩ := exec_bind_eq_ok h
    obtain ⟨hr, rfl, -⟩ := exec_pure_eq_ok hrest
    cases hr
    exact .inl ⟨_, .stopped hstop, rfl⟩
  | hearConsistent => cases h; exact .inl ⟨_, .heardConsistent, rfl⟩
  | hearInconsistent => exact .inl ⟨_, .heardInconsistent h, rfl⟩
  | setParameters minInterval doublings redundancy =>
    simp only [Request.program] at h
    cases hset : t.setParameters minInterval doublings redundancy with
    | ok t₁ =>
      rw [hset] at h
      cases h
      exact .inl ⟨_, .parametersSet hset, rfl⟩
    | error e =>
      rw [hset] at h
      cases h
      exact .inr ⟨rfl, rfl⟩
  | setCallback a => cases h; exact .inl ⟨_, .callbackSet a, rfl⟩

/-! ## Programs of the model -/

/-- The request schedules no event of the timer. -/
def Actions.Spared (actions : Actions α) (c : Call α) : Prop := ∀ action, c.schedules? = some action → ¬ actions.Owns action

/-- The program does nothing to the timer but make requests to it, and schedules none of its events. -/
abbrev Uses (P : Site (Trickle α) ω) (actions : Actions α) (p : Program α ω ρ) : Prop :=
  P.Uses actions.Spared (Request.program actions) p

/-- The timer's actions do to it what its events do, and all actions use it. -/
structure Meant (P : Site (Trickle α) ω) (actions : Actions α) (meaning : Meaning α ω) : Prop where
  fire : ∃ next : Option α → Program α ω Unit, (∀ callback, Uses P actions (next callback)) ∧
    meaning actions.fire = P.update (fun t => return t.fire) next
  endInterval : ∃ next : Except SimError Unit → Program α ω Unit, (∀ result, Uses P actions (next result)) ∧
    meaning actions.endInterval = P.update (fun t => t.endInterval actions) next
  others : ∀ a, ¬ actions.Owns (.perform a) → Uses P actions (meaning a)

/-- No event of the timer waits for the teardown. -/
def Unregistered (actions : Actions α) (s : Simulator α) : Prop :=
  ∀ e ∈ s.destroyEvents, ¬ actions.Owns (.perform e.action)

/-- A history of the timer in the model leads from one to the other, and the same events begin. -/
def passage (P : Site (Trickle α) ω) (actions : Actions α) : Simulator.Passage α ω := fun s w rs s' w' =>
  Unregistered actions s → Unregistered actions s' ∧ ∃ ms, Path (Step actions) ⟨s, P.get w⟩ ms ⟨s', P.get w'⟩ ∧
    begun actions ms = rs.map EventRecord.action

variable (actions) (P : Site (Trickle α) ω)

/-- What happens after something else goes on with its history. -/
theorem composes_passage : (passage P actions).Composes where
  refl s w hs := ⟨hs, [], .nil _, rfl⟩
  trans h h' hs := by
    obtain ⟨ht, ms, hms, hbegun⟩ := h hs
    obtain ⟨hu, ns, hns, hbegun'⟩ := h' ht
    refine ⟨hu, ms ++ ns, hms.append hns, ?_⟩
    rw [begun, List.filterMap_append, List.map_append, ← hbegun, ← hbegun']
    rfl

variable {s s' : Simulator α}

/-- What is not about the timer is one moment of its history. -/
theorem passage_of_step {m : SimKernel.Moment α} (w : ω) (h : s.Step m) (hd : m.deed.Foreign actions) :
    passage P actions s w m.deed.began?.toList m.state w := by
  intro hs
  refine ⟨fun e he => ?_, [⟨.other m.deed, m.state, P.get w⟩], .cons (.other h hd) (.nil _), ?_⟩
  · rcases h.mem_destroyEvents he with he | ⟨answer, hdeed⟩
    · exact hs e he
    · exact hd _ (by rw [hdeed]; rfl)
  · cases hbegan : m.deed.began? <;> simp [begun, Deed.begun?, hbegan]

/-- An event of the timer is one moment of its history together with what it does to the timer. -/
theorem passage_of_began {r : EventRecord (Action α)} (h : s.Step ⟨.began r, s'⟩) {w : ω} {s₁ : Simulator α} {t : Trickle α}
    {d : Deed α} (hm : Step actions ⟨s, P.get w⟩ ⟨d, s₁, t⟩) (hd : d.begun? actions = some r.action)
    (hs₁ : Unregistered actions s' → Unregistered actions s₁) : passage P actions s w [r] s₁ (P.set t w) := by
  intro hs
  refine ⟨hs₁ fun e he => ?_, [⟨d, s₁, t⟩], ?_, ?_⟩
  · rcases h.mem_destroyEvents he with he | ⟨answer, hdeed⟩
    · exact hs e he
    · cases hdeed
  · rw [P.get_set]
    exact .cons hm (.nil _)
  · simp [begun, hd]

/-- Requests that register nothing leave no event of the timer to the teardown. -/
theorem unregistered_of_plain {p : Program α ω ρ} (hp : p.Plain Fleeting) {handle : Handler α ω} {w : ω}
    {x : Outcome α ω ρ} (h : p.exec handle s w = .ok x) (hs : Unregistered actions s) : Unregistered actions x.2.1 := by
  refine hp.keeps (I := Unregistered actions) (fun {s s' c a} hc hperform hs e he => ?_) h hs
  rcases Simulator.mem_destroyEvents_of_perform hperform he with he | rfl
  · exact hs e he
  · exact absurd rfl (hc e.action)

/-- A request is one moment of the timer's history. -/
theorem bears_passage : P.Bears actions.Spared (Request.program actions) (passage P actions) where
  toComposes := composes_passage actions P
  call w hc h := passage_of_step actions P w (.called h) hc
  only hw h hs := by
    obtain ⟨ht, ms, hms, hbegun⟩ := h hs
    exact ⟨ht, ms, hw ▸ hms, hbegun⟩
  update {handle q s s' w r t} h hs := by
    refine ⟨unregistered_of_plain actions (plain_program q _) h hs, ?_⟩
    rw [P.get_set]
    rcases step_of_request h with ⟨d, hstep, hnone⟩ | ⟨rfl, rfl⟩
    · exact ⟨[⟨d, s', t⟩], .cons hstep (.nil _), by simp [begun, hnone]⟩
    · exact ⟨[], .nil _, rfl⟩

variable {P actions} {meaning : Meaning α ω}

/-- The timer fires before the rest of its action runs. -/
theorem Meant.passage_fire (hm : Meant P actions meaning) {r : EventRecord (Action α)} (h : s.Step ⟨.began r, s'⟩)
    (ha : r.action = .perform actions.fire) {w : ω} {x : Outcome α ω Unit}
    (hx : (meaning actions.fire).exec Handler.refuse s' w = .ok x) : passage P actions s w [r] x.2.1 x.2.2 := by
  obtain ⟨next, hnext, hmeaning⟩ := hm.fire
  rw [hmeaning] at hx
  have hplain : ∀ t : Trickle α, (return t.fire : Program α ω _).Plain Fleeting := fun _ => trivial
  obtain ⟨callback, t, s₁, hdone, hrest, -⟩ := Site.exec_update hplain hx fun _ _ _ => []
  cases hdone
  exact (composes_passage actions P).trans (passage_of_began actions P h (.fired h ha) (congrArg some ha.symm) id)
    ((hnext _).action (bears_passage actions P) plain_program hrest)

/-- The period ends, and the next one begins, before the rest of the action runs. -/
theorem Meant.passage_endInterval (hm : Meant P actions meaning) {r : EventRecord (Action α)}
    (h : s.Step ⟨.began r, s'⟩) (ha : r.action = .perform actions.endInterval) {w : ω} {x : Outcome α ω Unit}
    (hx : (meaning actions.endInterval).exec Handler.refuse s' w = .ok x) : passage P actions s w [r] x.2.1 x.2.2 := by
  obtain ⟨next, hnext, hmeaning⟩ := hm.endInterval
  rw [hmeaning] at hx
  obtain ⟨result, t, s₁, hdone, hrest, -⟩ := Site.exec_update plain_endInterval hx fun _ _ _ => []
  have hended := passage_of_began actions P h (.ended h ha hdone) (congrArg some ha.symm)
    (unregistered_of_plain actions (plain_endInterval _) hdone)
  exact (composes_passage actions P).trans hended ((hnext _).action (bears_passage actions P) plain_program hrest)

/-- An event that is none of the timer's is nothing to it but for the requests that its action makes. -/
theorem Meant.passage_other (hm : Meant P actions meaning) {r : EventRecord (Action α)} {a : α}
    (h : s.Step ⟨.began r, s'⟩) (ha : r.action = .perform a) (howns : ¬ actions.Owns (.perform a)) {w : ω}
    {x : Outcome α ω Unit} (hx : (meaning a).exec Handler.refuse s' w = .ok x) :
    passage P actions s w [r] x.2.1 x.2.2 := by
  have hforeign : (SimKernel.Deed.began r).Foreign actions := by
    rintro action ⟨⟩
    rwa [ha]
  exact (composes_passage actions P).trans (passage_of_step actions P w h hforeign)
    ((hm.others a howns).action (bears_passage actions P) plain_program hx)

theorem closed_passage (hm : Meant P actions meaning) : (passage P actions).Closed meaning where
  toComposes := composes_passage actions P
  step w h hneutral := by
    refine passage_of_step actions P w h fun action ha => ?_
    rintro (rfl | rfl)
    · exact hneutral _ ha
    · exact hneutral _ ha
  event {s s' r a w x} h ha hx := by
    by_cases hfire : a = actions.fire
    · subst hfire
      exact hm.passage_fire h ha hx
    by_cases hend : a = actions.endInterval
    · subst hend
      exact hm.passage_endInterval h ha hx
    · refine hm.passage_other h ha ?_ hx
      rintro (he | he)
      · exact hfire (Action.perform.inj he)
      · exact hend (Action.perform.inj he)
  teardown {s e rest w x} h hx := by
    intro hs
    -- no event of the timer was left to the teardown
    have howns := hs e (h ▸ List.mem_cons_self)
    refine (composes_passage actions P).trans (passage_of_step actions P w (.tornDown h) ?_)
      ((hm.others _ howns).action (bears_passage actions P) plain_program hx) hs
    rintro action ⟨⟩
    exact howns

/-- **Programs that use a trickle timer.** If the timer's two actions do to it what its events do, and apart from that all
actions and a program do nothing to it but make requests to it, then what happens in the course of the program is a history of
the timer and its simulator, at which the same events begin. -/
theorem path_of_exec (hm : Meant P actions meaning) {fuel : Nat} {p : Program α ω ρ} (hp : Uses P actions p)
    (hs : Unregistered actions s) {w : ω} {x : Outcome α ω ρ} (h : p.exec (Simulator.handler meaning fuel) s w = .ok x) :
    ∃ ms, Path (Step actions) ⟨s, P.get w⟩ ms ⟨x.2.1, P.get x.2.2⟩ ∧
      begun actions ms = (executed (p.moments (Simulator.handler meaning fuel) (Simulator.within meaning fuel) s w)).map
        EventRecord.action :=
  (hp.passage (bears_passage actions P) plain_program h _ (fun _ _ _ _ hd => (closed_passage hm).handler hd) hs).2

end Trickle

end SimKernel
