import SimKernel.Proofs.Simulator.StopTime

/-!
# When a run executes nothing

A run executes no event in three cases: its stop time has passed already, as many events as the configuration allows have
run, or there is nothing to execute (`Idles`). Whether an end was requested makes no difference, since a run forgets
requests that were made before it began.

`isFinished` looks at the pending events and at that request only. It tells what a run would do as long as the request was
not made, the limit is not reached, and no stop time is left to be armed (`finished_iff`), and it may be wrong otherwise in
both directions (`exists_finished_and_executed`, `exists_unfinished_and_idle`).
-/

namespace SimKernel

namespace Simulator

variable {α ω ρ : Type} {s s' : Simulator α} {w w' : ω}

/-- The stop time is still to be armed, and it has passed. -/
def StopPassed (s : Simulator α) : Prop :=
  s.stopTimeArmed = false ∧ ∃ time, s.config.stopTime = some time ∧ time < s.now

/-- The stop time is still to be armed, and it has not passed. -/
def StopAhead (s : Simulator α) : Prop :=
  s.stopTimeArmed = false ∧ ∃ time, s.config.stopTime = some time ∧ s.now ≤ time

theorem Armed.not_stop (h : s.Armed) : ¬ s.StopPassed ∧ ¬ s.StopAhead := by
  constructor <;>
  · rintro ⟨hfirst, time, ht, -⟩
    rcases h with h | h
    · cases hfirst.symm.trans h
    · cases ht.symm.trans h

/-- The stop time has passed, or it is ahead, or none is left to be armed. -/
theorem stop_cases (s : Simulator α) :
    s.StopPassed ∨ s.StopAhead ∧ ¬ s.StopPassed ∨ s.Armed ∧ ¬ s.StopPassed ∧ ¬ s.StopAhead := by
  by_cases harmed : s.Armed
  · exact .inr (.inr ⟨harmed, harmed.not_stop⟩)
  obtain ⟨hfirst, hsome⟩ := not_or.1 harmed
  obtain ⟨time, ht⟩ := Option.ne_none_iff_exists'.1 hsome
  have hfirst : s.stopTimeArmed = false := by simpa using hfirst
  by_cases hlt : time < s.now
  · exact .inl ⟨hfirst, time, ht, hlt⟩
  · refine .inr (.inl ⟨⟨hfirst, time, ht, Int.not_lt.1 hlt⟩, ?_⟩)
    rintro ⟨-, time', ht', hlt'⟩
    cases ht.symm.trans ht'
    exact hlt hlt'

/-- There is nothing that a run would execute. -/
def Idles (s : Simulator α) : Prop :=
  s.StopPassed ∨ s.limitReached = true ∨ s.pending = 0 ∧ ¬ s.StopAhead

theorem isFinished_iff : s.isFinished = true ↔ s.pending = 0 ∨ s.stopRequested = true := by
  simp [isFinished]

theorem Sound.pending_eq_zero_iff (hs : s.Sound) : s.pending = 0 ↔ ∀ slot, s.slots.record? slot = none := by
  rw [pending, hs.slots.live_eq, List.length_eq_zero_iff, List.eq_nil_iff_forall_not_mem]
  constructor
  · intro h slot
    cases hr : s.slots.record? slot with
    | none => rfl
    | some r => exact absurd (EventSlots.mem_records_iff.2 ⟨slot, hr⟩) (h r)
  · intro h r hr
    obtain ⟨slot, hr⟩ := EventSlots.mem_records_iff.1 hr
    cases (h slot).symm.trans hr

/-! ## The loop -/

/-- The loop of a run ends at once, without a fault or an error. -/
def EndsAtOnce (meaning : Meaning α ω) (n : Nat) (s : Simulator α) (w : ω) : Prop :=
  executed (loopMoments meaning n s w) = [] ∧
    ∃ reason s', runLoop meaning n s w = .ok (.ok reason, s', w) ∧ s'.metrics.executed = s.metrics.executed

/-- Unless it is asked to end, the loop executes the next event if the limit allows it and there is one. -/
theorem loop_cases (meaning : Meaning α ω) (n : Nat) (hs : s.Sound) (hrequested : s.stopRequested = false) (w : ω) :
    (s.limitReached = true ∨ s.pending = 0) ∧ EndsAtOnce meaning (n + 1) s w ∨
    ¬ (s.limitReached = true ∨ s.pending = 0) ∧ executed (loopMoments meaning (n + 1) s w) ≠ [] := by
  by_cases hlimit : s.limitReached
  · refine .inl ⟨.inl hlimit, ?_, .eventLimit, s, ?_, rfl⟩
    · simp only [loopMoments, hlimit, or_true, if_true]
      rfl
    · simp only [runLoop, hrequested, Bool.false_eq_true, if_false, hlimit, if_true]
  obtain ⟨⟨_ | r, s₁⟩, hn⟩ : ∃ x, s.nextEvent = x := ⟨_, rfl⟩
  · obtain ⟨-, hnone, he, -⟩ := hs.nextEvent_eq_none hn
    have hx := processNext_of_none meaning w hn
    refine .inl ⟨.inr (hs.pending_eq_zero_iff.2 hnone), ?_, .queueEmpty, s₁, ?_, by rw [he]⟩
    · simp only [loopMoments, hrequested, hlimit, Bool.false_eq_true, or_self, if_false, hx, nextMoments, hn]
      rfl
    · simp only [runLoop, hrequested, hlimit, Bool.false_eq_true, if_false, hx]
  · obtain ⟨s₂, ha⟩ := hs.advance hn
    obtain ⟨-, -, slot, hr, -⟩ := hs.nextEvent_eq_some hn
    refine .inr ⟨?_, ?_⟩
    · rintro (h | h)
      · exact hlimit h
      · cases (hs.pending_eq_zero_iff.1 h slot).symm.trans hr
    · simp only [loopMoments, hrequested, hlimit, Bool.false_eq_true, or_self, if_false,
        nextMoments_of_some meaning w hn ha, List.cons_append]
      exact List.cons_ne_nil _ _

/-! ## The run -/

/-- A run executes nothing, and ends without a fault or an error. -/
def Rests (meaning : Meaning α ω) (n : Nat) (s : Simulator α) (w : ω) : Prop :=
  executed (runMoments meaning n s w) = [] ∧
    ∃ report s', s.run meaning n w = .ok (.ok report, s', w) ∧ s'.metrics.executed = s.metrics.executed

/-- After the stop time was taken care of, a run is its loop. -/
theorem run_cases_of_armed {meaning : Meaning α ω} {n : Nat} {s₁ : Simulator α} (hrunning : s.running = false)
    (harm : s.armStopTime = .ok (.ok false, s₁)) (hs : s₁.Sound) (hmetrics : s₁.metrics.executed = s.metrics.executed)
    (w : ω) :
    (s₁.limitReached = true ∨ s₁.pending = 0) ∧ Rests meaning (n + 1) s w ∨
    ¬ (s₁.limitReached = true ∨ s₁.pending = 0) ∧ executed (runMoments meaning (n + 1) s w) ≠ [] := by
  let s₂ : Simulator α := { s₁ with running := true, stopRequested := false }
  have hs₂ : s₂.Sound := { hs with }
  have hms : executed (runMoments meaning (n + 1) s w) = executed (loopMoments meaning (n + 1) s₂ w) := by
    simp only [runMoments, hrunning, Bool.false_eq_true, if_false, executed_append, executed_arm, harm, List.nil_append]
    exact executed_cons_of_none rfl _
  rcases loop_cases meaning n hs₂ rfl w with ⟨hidle, hnone, reason, s₃, hl, hexecuted⟩ | ⟨hbusy, hsome⟩
  · refine .inl ⟨hidle, hms.trans hnone, { s₃ with running := false, stopReason := some reason }.report,
      { s₃ with running := false, stopReason := some reason }, ?_, hexecuted.trans hmetrics⟩
    simp only [run, hrunning, Bool.false_eq_true, if_false, harm, bind, Except.bind]
    rw [show runLoop meaning (n + 1) { s₁ with running := true, stopRequested := false } w = _ from hl]
    rfl
  · exact .inr ⟨hbusy, hms ▸ hsome⟩

/-- A run executes something unless there is nothing to execute. -/
theorem run_cases (meaning : Meaning α ω) (n : Nat) (hs : s.Sound) (ha : s.Aligned) (hrunning : s.running = false) (w : ω) :
    s.Idles ∧ Rests meaning (n + 1) s w ∨ ¬ s.Idles ∧ executed (runMoments meaning (n + 1) s w) ≠ [] := by
  rcases s.stop_cases with hpassed | ⟨hahead, hnot⟩ | ⟨harmed, hpassed, hahead⟩
  · obtain ⟨hfirst, time, ht, hlt⟩ := hpassed
    obtain ⟨hrun, hnone⟩ := run_of_past meaning n w hrunning hfirst ht hlt
    exact .inl ⟨.inl ⟨hfirst, time, ht, hlt⟩, hnone, _, _, hrun, rfl⟩
  · obtain ⟨hfirst, time, ht, hle⟩ := id hahead
    have hsound := hs.armed (ha.now_le_quantize hs hle)
    -- The stop event is pending when the loop begins.
    have hsome : (s.armed (s.config.resolution.quantize time)).pending ≠ 0 := by
      intro h
      cases (hsound.pending_eq_zero_iff.1 h _).symm.trans (record?_armed hs _)
    have hidles : s.Idles ↔ s.limitReached = true := by simp [Idles, hnot, hahead]
    rcases run_cases_of_armed hrunning (armStopTime_of_le hs ha hfirst ht hle) hsound rfl w with ⟨h, hrests⟩ | ⟨h, hsome'⟩
    · exact .inl ⟨hidles.2 (h.resolve_right hsome), hrests⟩
    · exact .inr ⟨fun hi => h (.inl (hidles.1 hi)), hsome'⟩
  · obtain ⟨s₁, harm, hbare, -⟩ := armStopTime_of_armed harmed
    have hs₁ : s₁.bare.Sound := hbare ▸ ({ hs with } : s.bare.Sound)
    have hmetrics : s₁.bare.metrics.executed = s.bare.metrics.executed := by rw [hbare]
    have hidles : s.Idles ↔ s₁.bare.limitReached = true ∨ s₁.bare.pending = 0 := by
      rw [hbare]
      simp only [Idles, hpassed, hahead, false_or, not_false_eq_true, and_true]
      exact Iff.rfl
    rcases run_cases_of_armed hrunning harm { hs₁ with } hmetrics w with ⟨h, hrests⟩ | ⟨h, hsome⟩
    · exact .inl ⟨hidles.2 h, hrests⟩
    · exact .inr ⟨fun hi => h (hidles.1 hi), hsome⟩

/-- **When a simulation is finished.** Between the requests of a driver, a run would execute no event exactly if there is
nothing to execute, and then it ends without a fault or an error and leaves the model as it is. The simulator answers this
question as long as no end was requested, the limit is not reached, and no stop time is left to be armed. -/
theorem finished_iff {meaning : Meaning α ω} {fuel owner : Nat} {config : Config} {p : Program α ω ρ} {w₀ : ω}
    {res : Except SimError ρ} (hp : p.exec (handler meaning fuel) (ofConfig owner config) w₀ = .ok (res, s, w)) (n : Nat) :
    let ms := within meaning (n + 1) .run s w
    (executed ms = [] ↔ s.Idles) ∧
    (s.Idles → ∃ report s', s.run meaning (n + 1) w = .ok (.ok report, s', w) ∧
      s'.metrics.executed = s.metrics.executed) ∧
    (s.stopRequested = false → s.limitReached = false → s.Armed → (s.isFinished = true ↔ executed ms = [])) := by
  intro ms
  obtain ⟨hs, ha, -⟩ : s.Sound ∧ s.Aligned ∧ s.config = config := kept_of_exec hp
  have hrunning : s.running = false := running_of_exec hp rfl
  have hiff : executed ms = [] ↔ s.Idles := by
    rcases run_cases meaning n hs ha hrunning w with ⟨hidles, hnone, -⟩ | ⟨hbusy, hsome⟩
    · exact ⟨fun _ => hidles, fun _ => hnone⟩
    · exact ⟨fun h => absurd h hsome, fun h => absurd h hbusy⟩
  refine ⟨hiff, ?_, ?_⟩
  · intro hidles
    rcases run_cases meaning n hs ha hrunning w with ⟨-, -, hrun⟩ | ⟨hbusy, -⟩
    · exact hrun
    · exact absurd hidles hbusy
  · intro hrequested hlimit harmed
    obtain ⟨hpassed, hahead⟩ := harmed.not_stop
    rw [hiff, isFinished_iff, Idles]
    simp [hrequested, hlimit, hpassed, hahead]

/-- One event is due at once. -/
def oneDue : Program Unit Unit Unit := do
  let _ ← Program.request (.scheduleNow ())

theorem finished_iff_oneDue :
    ∃ s, oneDue.exec (handler (fun _ => .done ()) 0) (ofConfig 0 {}) () = .ok (.ok (), s, ()) ∧
      s.stopRequested = false ∧ s.limitReached = false ∧ s.Armed ∧ s.isFinished = false ∧
      executed (within (fun _ => .done ()) 1 .run s ()) ≠ [] := by
  refine ⟨_, rfl, rfl, rfl, .inr rfl, rfl, ?_⟩
  have hp : oneDue.exec (handler (fun _ => .done ()) 0) (ofConfig 0 {}) () = _ := rfl
  obtain ⟨-, -, hiff⟩ := finished_iff hp 0
  intro hnone
  cases (hiff rfl rfl (.inr rfl)).2 hnone

/-- One event is due at once, and then an end is requested. -/
def stopsBeforeRun : Program Unit Unit Unit := do
  let _ ← Program.request (.scheduleNow ())
  Program.request .stop

/-- A request for an end is taken for the end, though a run forgets it and executes the event. -/
theorem exists_finished_and_executed :
    ∃ s, stopsBeforeRun.exec (handler (fun _ => .done ()) 0) (ofConfig 0 {}) () = .ok (.ok (), s, ()) ∧
      s.isFinished = true ∧ executed (within (fun _ => .done ()) 1 .run s ()) ≠ [] := by
  refine ⟨_, rfl, rfl, ?_⟩
  intro hnone
  have hlength : (executed (within (fun _ => .done ()) 1 .run (((ofConfig 0 {}).scheduleNow
      (.perform ())).2.stop) ())).length = 1 := by decide +kernel
  cases hlength.symm.trans (congrArg List.length hnone)

/-- Two events are due, and one may run. -/
def limitOne : Program Unit Unit Unit := do
  let _ ← Program.request (.scheduleNow ())
  let _ ← Program.request (.scheduleNow ())
  let _ ← Program.requestDrive .run

/-- When the limit of events is reached a run executes nothing, though the simulation is not taken for finished. -/
theorem exists_unfinished_and_idle :
    ∃ s, limitOne.exec (handler (fun _ => .done ()) 2) (ofConfig 0 { maxEvents := some 1 }) () = .ok (.ok (), s, ()) ∧
      s.isFinished = false ∧ executed (within (fun _ => .done ()) 1 .run s ()) = [] := by
  have hlast : ((limitOne.exec (handler (fun _ => .done ()) 2) (ofConfig 0 { maxEvents := some 1 }) ()).toOption.map
      fun x => (x.1.toOption, x.2.1.isFinished, x.2.1.limitReached)) = some (some (), false, true) := by
    decide +kernel
  cases hp : limitOne.exec (handler (fun _ => .done ()) 2) (ofConfig 0 { maxEvents := some 1 }) () with
  | error f =>
    rw [hp] at hlast
    cases hlast
  | ok x =>
    obtain ⟨res, s, w⟩ := x
    rw [hp] at hlast
    obtain ⟨hres, hflags⟩ := Prod.mk.inj (Option.some.inj hlast)
    obtain ⟨hfinished, hlimit⟩ := Prod.mk.inj hflags
    obtain ⟨hs, ha, -⟩ := kept_of_exec hp
    have hrunning : s.running = false := running_of_exec hp rfl
    cases res with
    | error e => cases hres
    | ok =>
      refine ⟨s, rfl, hfinished, ?_⟩
      rcases run_cases (fun _ => .done ()) 0 hs ha hrunning w with ⟨-, hnone, -⟩ | ⟨hbusy, -⟩
      · exact hnone
      · exact absurd (.inr (.inl hlimit)) hbusy

end Simulator

end SimKernel
