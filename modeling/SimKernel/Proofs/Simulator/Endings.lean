import SimKernel.Proofs.Simulator.Finished
import SimKernel.Proofs.Simulator.Teardown

/-!
# How runs end

A run takes care of the stop time (`Prepares`), and then goes round by round (`Round`) until it was asked for an end, as many
events have run as are allowed, none is pending, or an action fails (`Runs`). The reason that it reports tells the first three
apart (`Ends`). An action that asks for an end is the last one (`Runs.last_of_stops`), and so is one that fails
(`Runs.last_of_error`).

When an event begins, the simulator counts as executing an action (`running_of_within`), and whoever drives it then is refused
(`handler_of_running`). `run_ends` puts this together. A stop time that has passed ends a run only if it is still to be armed
(`exists_stopTime_passed_and_queueEmpty`).
-/

namespace SimKernel

variable {α ω ρ : Type}

namespace Simulator

variable {meaning : Meaning α ω} {fuel n : Nat} {s s' s₁ s₂ t : Simulator α} {w w' : ω} {m : Moment α}
  {ms ns : List (Moment α)} {r : EventRecord (Action α)} {x : Outcome α ω Unit} {result : Except SimError StopReason}

/-! ## Rounds -/

/-- The moments of an event that begins, those of its action among them. -/
def eventMoments (meaning : Meaning α ω) (r : EventRecord (Action α)) (s : Simulator α) (w : ω) : List (Moment α) :=
  ⟨.began r, s⟩ :: actionMoments meaning r.action s w

/-- No end was requested and the limit is not reached, so the next event begins, and its action is performed. -/
structure Round (meaning : Meaning α ω) (s : Simulator α) (w : ω) (r : EventRecord (Action α)) (s₁ : Simulator α)
    (x : Outcome α ω Unit) : Prop where
  unstopped : s.stopRequested = false
  allowed : s.limitReached = false
  began : s.Step ⟨.began r, s₁⟩
  performs : Simulator.perform meaning r.action s₁ w = .ok x

/-- Rounds follow one another until an end was requested, as many events have run as are allowed, none is pending, or the
action of one fails, whose error is the result. -/
inductive Runs (meaning : Meaning α ω) :
    Simulator α → ω → List (Moment α) → Except SimError StopReason → Simulator α → ω → Prop
  | stopped {s : Simulator α} {w : ω} (hstop : s.stopRequested = true) : Runs meaning s w [] (.ok .stopped) s w
  | limited {s : Simulator α} {w : ω} (hstop : s.stopRequested = false) (hlimit : s.limitReached = true) :
      Runs meaning s w [] (.ok .eventLimit) s w
  | emptied {s s' : Simulator α} {w : ω} (hstop : s.stopRequested = false) (hlimit : s.limitReached = false)
      (hn : s.nextEvent = (none, s')) : Runs meaning s w [⟨.idled, s'⟩] (.ok .queueEmpty) s' w
  | failed {s s₁ s' : Simulator α} {w w' : ω} {r : EventRecord (Action α)} {e : SimError}
      (hr : Round meaning s w r s₁ (.error e, s', w')) : Runs meaning s w (eventMoments meaning r s₁ w) (.error e) s' w'
  | next {s s₁ s₂ s' : Simulator α} {w w₂ w' : ω} {r : EventRecord (Action α)} {ms : List (Moment α)}
      {result : Except SimError StopReason} (hr : Round meaning s w r s₁ (.ok (), s₂, w₂))
      (hs : Runs meaning s₂ w₂ ms result s' w') : Runs meaning s w (eventMoments meaning r s₁ w ++ ms) result s' w'

/-- A loop that returns has gone round by round, whatever number of events it was given up after. -/
theorem runs_of_runLoop (h : runLoop meaning fuel s w = .ok (result, s', w')) :
    Runs meaning s w (loopMoments meaning fuel s w) result s' w' := by
  induction fuel generalizing s w with
  | zero => cases h
  | succ fuel ih =>
    by_cases hstop : s.stopRequested = true
    · simp only [runLoop, hstop, if_true] at h
      cases h
      simp only [loopMoments, hstop, true_or, if_true]
      exact .stopped hstop
    by_cases hlimit : s.limitReached = true
    · simp only [runLoop, hstop, Bool.false_eq_true, if_false, hlimit, if_true] at h
      cases h
      simp only [loopMoments, hlimit, or_true, if_true]
      exact .limited (by simpa using hstop) hlimit
    simp only [runLoop, hstop, hlimit, Bool.false_eq_true, if_false] at h
    simp only [loopMoments, hstop, hlimit, Bool.false_eq_true, or_self, if_false]
    rw [Bool.not_eq_true] at hstop hlimit
    -- Nothing ends the run before the next event, so either there is none, or its action decides.
    obtain ⟨⟨_ | r, s₁⟩, hn⟩ : ∃ x, s.nextEvent = x := ⟨_, rfl⟩
    · simp only [processNext_of_none meaning w hn] at h ⊢
      cases h
      simp only [nextMoments, hn, List.append_nil]
      exact .emptied hstop hlimit hn
    cases ha : s₁.advance r with
    | error f =>
      rw [processNext_of_error meaning w hn ha] at h
      cases h
    | ok s₂ =>
      rw [processNext_of_some meaning w hn ha] at h ⊢
      rw [nextMoments_of_some meaning w hn ha]
      cases hx : Simulator.perform meaning r.action s₂ w with
      | error f =>
        rw [hx] at h
        cases h
      | ok x =>
        rw [hx] at h
        obtain ⟨e | ⟨⟩, s₃, w₃⟩ := x
        · cases h
          simp only [Except.map, List.append_nil]
          exact .failed ⟨hstop, hlimit, .began hn ha, hx⟩
        · exact .next ⟨hstop, hlimit, .began hn ha, hx⟩ (ih h)

theorem executed_eventMoments (meaning : Meaning α ω) (r : EventRecord (Action α)) (s : Simulator α) (w : ω) :
    executed (eventMoments meaning r s w) = [r] :=
  congrArg (r :: ·) (executed_action meaning r.action s w)

theorem tornDown_eventMoments (meaning : Meaning α ω) (r : EventRecord (Action α)) (s : Simulator α) (w : ω) :
    tornDown (eventMoments meaning r s w) = [] :=
  tornDown_actionMoments r.action

theorem Round.path (h : Round meaning s w r s₁ x) : Path s (eventMoments meaning r s₁ w) x.2.1 :=
  .cons h.began ((leads_action meaning s₁ w r.action).path h.performs)

theorem Runs.path (h : Runs meaning s w ms result s' w') : Path s ms s' := by
  induction h with
  | stopped | limited => exact .nil _
  | emptied _ _ hn => exact .single (.idled hn)
  | failed hr => exact hr.path
  | next hr _ ih => exact hr.path.append ih

/-! ## The number of events -/

/-- Events and destroy events are counted as executed when they begin. -/
theorem Sound.executed_of_step (hs : s.Sound) (h : s.Step m) :
    m.state.metrics.executed =
      s.metrics.executed + (m.deed.began?.toList.length + m.deed.tornDown?.toList.length) := by
  cases h with
  | called hc => cases effect_of_perform hc <;> rfl
  | began hn ha =>
    obtain ⟨-, hbesides, -⟩ := hs.nextEvent_eq_some hn
    obtain ⟨-, rfl⟩ := advance_eq_ok ha
    exact congrArg (· + 1) hbesides.metrics_eq.2.1
  | idled hn =>
    obtain ⟨-, -, hbesides, -⟩ := hs.nextEvent_eq_none hn
    exact hbesides.metrics_eq.2.1
  | tornDown | cleared | switched => rfl

theorem Path.executed_eq (hp : Path s ms t) (hs : s.Sound) :
    t.metrics.executed = s.metrics.executed + ((executed ms).length + (tornDown ms).length) := by
  induction hp with
  | nil => rfl
  | @cons s t m ms hm _ ih =>
    rw [ih (Sound.step s m hs hm), hs.executed_of_step hm, executed_cons, tornDown_cons, List.length_append,
      List.length_append]
    omega

theorem Runs.tornDown_eq (h : Runs meaning s w ms result s' w') : tornDown ms = [] := by
  induction h with
  | stopped | limited | emptied => rfl
  | failed => exact tornDown_eventMoments meaning _ _ _
  | next _ _ ih => rw [tornDown_append, tornDown_eventMoments, ih, List.append_nil]

theorem Runs.executed_eq (h : Runs meaning s w ms result s' w') (hs : s.Sound) :
    s'.metrics.executed = s.metrics.executed + (executed ms).length := by
  rw [h.path.executed_eq hs, h.tornDown_eq]
  rfl

theorem Round.executed_lt (h : Round meaning s w r s₁ x) {limit : UInt64} (hl : s.config.maxEvents = some limit) :
    s.metrics.executed < limit.toNat := by
  have hallowed := h.allowed
  simp only [limitReached, hl, decide_eq_false_iff_not, Nat.not_le] at hallowed
  exact hallowed

/-- A run does not go beyond the limit, and executes nothing if that is exceeded already. -/
theorem Runs.length_executed_le (h : Runs meaning s w ms result s' w') (hs : s.Sound) {limit : UInt64}
    (hl : s.config.maxEvents = some limit) : (executed ms).length ≤ limit.toNat - s.metrics.executed := by
  induction h with
  | stopped | limited | emptied => exact Nat.zero_le _
  | failed hr =>
    have := hr.executed_lt hl
    rw [executed_eventMoments, List.length_singleton]
    omega
  | next hr _ ih =>
    have := hr.executed_lt hl
    obtain ⟨hs₂, -, hconfig⟩ := hr.path.sound_settings hs
    have hrest := ih hs₂ (hconfig ▸ hl)
    have hcount := hr.path.executed_eq hs
    rw [executed_eventMoments, tornDown_eventMoments] at hcount
    rw [executed_append, executed_eventMoments, List.length_append]
    simp only [List.length_singleton, List.length_nil] at hcount ⊢
    omega

/-! ## Requests for an end -/

theorem Round.stopRequested_eq (h : Round meaning s w r s₁ x) (hs : s.Sound) :
    x.2.1.stopRequested = (eventMoments meaning r s₁ w).any fun m => m.deed.stops := by
  have hfirst : s₁.stopRequested = false := by
    cases h.began with
    | began hn ha => exact (stopRequested_of_next hs hn ha).trans h.unstopped
  rw [stopRequested_of_action h.performs, hfirst]
  rfl

/-- A run that is asked for an end executes nothing more. -/
theorem Runs.of_stopRequested (h : Runs meaning s w ms result s' w') (hstop : s.stopRequested = true) : ms = [] := by
  cases h with
  | stopped => rfl
  | limited h | emptied h => cases hstop.symm.trans h
  | failed hr | next hr => cases hstop.symm.trans hr.unstopped

/-- After a run it was asked for an end if that was requested before or in the course of it. -/
theorem Runs.stopRequested_eq (h : Runs meaning s w ms result s' w') (hs : s.Sound) :
    s'.stopRequested = (s.stopRequested || ms.any fun m => m.deed.stops) := by
  induction h with
  | stopped | limited => exact (Bool.or_false _).symm
  | @emptied s s' _ _ _ hn =>
    obtain ⟨-, -, hbesides, -⟩ := hs.nextEvent_eq_none hn
    have hsame : s'.stopRequested = s.stopRequested := by rw [hbesides]
    exact hsame.trans (Bool.or_false _).symm
  | failed hr =>
    rw [hr.unstopped, Bool.false_or]
    exact hr.stopRequested_eq hs
  | next hr _ ih =>
    rw [ih (hr.path.sound_settings hs).1, hr.stopRequested_eq hs, hr.unstopped, List.any_append, Bool.false_or]

/-- Who asks for an end is the action of the last event that a run executes. -/
theorem Runs.last_of_stops (h : Runs meaning s w ms result s' w') (hs : s.Sound) (hm : m ∈ ms)
    (hstops : m.deed.stops = true) :
    ∃ r s₁ w₁, eventMoments meaning r s₁ w₁ <:+ ms ∧ m ∈ actionMoments meaning r.action s₁ w₁ := by
  have hin {r : EventRecord (Action α)} {s₁ : Simulator α} {w : ω} (hm : m ∈ eventMoments meaning r s₁ w) :
      m ∈ actionMoments meaning r.action s₁ w := by
    rcases List.mem_cons.1 hm with rfl | hm
    · cases hstops
    · exact hm
  induction h with
  | stopped | limited => cases hm
  | emptied =>
    cases List.mem_singleton.1 hm
    cases hstops
  | failed hr => exact ⟨_, _, _, List.suffix_refl _, hin hm⟩
  | @next _ _ s₂ _ _ _ _ _ ms _ hr hrest ih =>
    rcases List.mem_append.1 hm with hm | hm
    · have hstop : s₂.stopRequested = true := (hr.stopRequested_eq hs).trans (List.any_eq_true.2 ⟨m, hm, hstops⟩)
      rw [hrest.of_stopRequested hstop, List.append_nil]
      exact ⟨_, _, _, List.suffix_refl _, hin hm⟩
    · obtain ⟨r, s₁, w₁, hlast, hm⟩ := ih (hr.path.sound_settings hs).1 hm
      exact ⟨r, s₁, w₁, hlast.trans (List.suffix_append _ _), hm⟩

/-! ## Reasons -/

/-- What the reason says about the simulator that a run leaves behind. -/
theorem Runs.reason_cases (h : Runs meaning s w ms result s' w') (hs : s.Sound) {reason : StopReason}
    (hok : result = .ok reason) :
    reason = .stopped ∧ s'.stopRequested = true ∨
    reason = .eventLimit ∧ s'.stopRequested = false ∧ s'.limitReached = true ∨
    reason = .queueEmpty ∧ s'.stopRequested = false ∧ s'.limitReached = false ∧ s'.pending = 0 := by
  induction h with
  | stopped hstop =>
    cases hok
    exact .inl ⟨rfl, hstop⟩
  | limited hstop hlimit =>
    cases hok
    exact .inr (.inl ⟨rfl, hstop, hlimit⟩)
  | @emptied s s' _ hstop hlimit hn =>
    cases hok
    obtain ⟨hs', hnone, hbesides, hslots⟩ := hs.nextEvent_eq_none hn
    have hstop' : s'.stopRequested = s.stopRequested := by rw [hbesides]
    have hlimit' : s'.limitReached = s.limitReached := by rw [hbesides]; rfl
    refine .inr (.inr ⟨rfl, hstop'.trans hstop, hlimit'.trans hlimit, hs'.pending_eq_zero_iff.2 fun slot => ?_⟩)
    rw [hslots]
    exact hnone slot
  | failed => cases hok
  | next hr _ ih => exact ih (hr.path.sound_settings hs).1 hok

/-- The error of a run is that of the action of the last event that it executes. -/
theorem Runs.last_of_error (h : Runs meaning s w ms result s' w') (hs : s.Sound) {e : SimError} (he : result = .error e) :
    ∃ r s₁ w₁, eventMoments meaning r s₁ w₁ <:+ ms ∧
      Simulator.perform meaning r.action s₁ w₁ = .ok (.error e, s', w') ∧ s'.now = r.time := by
  induction h with
  | stopped | limited | emptied => cases he
  | @failed s s₁ s' w w' r e hr =>
    cases he
    have hs₁ : s₁.Sound := Sound.step s _ hs hr.began
    have hpath := (leads_action meaning s₁ w r.action).path hr.performs
    refine ⟨r, s₁, w, List.suffix_refl _, hr.performs, ?_⟩
    exact (hpath.clock_eq hs₁ (executed_action meaning r.action s₁ w)).1.trans (hs.step_began hr.began).1
  | next hr _ ih =>
    obtain ⟨r, s₁, w₁, hlast, hrest⟩ := ih (hr.path.sound_settings hs).1 he
    exact ⟨r, s₁, w₁, hlast.trans (List.suffix_append _ _), hrest⟩

/-! ## Inside actions -/

/-- A simulator that is executing an action refuses to be driven, and stays as it is. -/
theorem handler_of_running (h : s.running = true) (d : Drive) (w : ω) :
    handler meaning fuel d s w = Handler.refuse d s w := by
  cases d with
  | run => simp only [handler, run, h, if_true]; rfl
  | step => simp only [handler, step, h, if_true]; rfl
  | destroy => simp only [handler, destroy, h, if_true]; rfl

/-- So it makes no difference whether an action is executed with refusals at once. -/
theorem exec_of_running (h : s.running = true) (p : Program α ω ρ) (w : ω) :
    p.exec (handler meaning fuel) s w = p.exec Handler.refuse s w := by
  induction p generalizing s w with
  | done | fail | fault => rfl
  | ask q next ih =>
    simp only [Program.exec]
    cases q.answer s with
    | error f => rfl
    | ok a => exact ih a h w
  | call c next ih =>
    simp only [Program.exec]
    cases hc : c.perform s with
    | error f => rfl
    | ok a => exact ih a.1 ((effect_of_perform hc).running_eq.1.trans h) w
  | drive d next ih =>
    simp only [Program.exec, handler_of_running h]
    exact ih _ h w
  | look next ih => exact ih w h w
  | change g next ih => exact ih h (g w)

theorem running_nextEvent (s : Simulator α) : s.nextEvent.2.running = s.running := by
  fun_induction nextEvent s with
  | case1 | case2 => rfl
  | case3 s key queue hp ht ih => exact ih

theorem running_of_performed {action : Action α} (h : perform meaning action s w = .ok x) : x.2.1.running = s.running := by
  cases action with
  | stop => cases h; rfl
  | perform a =>
    exact exec_refuse_keeps (I := fun u => u.running = s.running)
      (fun _ _ _ _ hc hs => (effect_of_perform hc).running_eq.1.trans hs) h rfl

theorem running_of_next (hs : s.running = true) :
    (∀ m ∈ nextMoments meaning s w, m.deed.began? ≠ none → m.state.running = true) ∧
      ∀ x, processNext meaning s w = .ok x → x.2.1.running = true := by
  obtain ⟨⟨_ | r, s₁⟩, hn⟩ : ∃ x, s.nextEvent = x := ⟨_, rfl⟩
  · have hs₁ : s₁.running = true := (congrArg (fun x => x.2.running) hn).symm.trans ((running_nextEvent s).trans hs)
    simp only [nextMoments, hn, processNext_of_none meaning w hn]
    refine ⟨fun m hm hb => ?_, fun x hx => ?_⟩
    · cases List.mem_singleton.1 hm
      exact absurd rfl hb
    · cases hx
      exact hs₁
  · have hs₁ : s₁.running = true := (congrArg (fun x => x.2.running) hn).symm.trans ((running_nextEvent s).trans hs)
    cases ha : s₁.advance r with
    | error f =>
      simp only [nextMoments, hn, ha, processNext_of_error meaning w hn ha]
      exact ⟨fun m hm => absurd hm List.not_mem_nil, by rintro x ⟨⟩⟩
    | ok s₂ =>
      have hs₂ : s₂.running = true := by
        obtain ⟨-, rfl⟩ := advance_eq_ok ha
        exact hs₁
      rw [nextMoments_of_some meaning w hn ha, processNext_of_some meaning w hn ha]
      refine ⟨fun m hm hb => ?_, fun x hx => ?_⟩
      · rcases List.mem_cons.1 hm with rfl | hm
        · exact hs₂
        · exact absurd (began?_of_actionMoments hm).1 hb
      · obtain ⟨y, hy, rfl⟩ := Outcome.map_eq_ok_iff.1 hx
        exact (running_of_performed hy).trans hs₂

theorem running_of_destroyLoopMoments (hs : s.running = true) (hm : m ∈ destroyLoopMoments meaning fuel s w)
    (hb : m.deed.tornDown? ≠ none) : m.state.running = true := by
  induction fuel generalizing s w with
  | zero => cases hm
  | succ fuel ih =>
    rw [destroyLoopMoments] at hm
    split at hm
    · cases hm
    · rcases List.mem_append.1 hm with hm | hm
      · rcases List.mem_cons.1 hm with rfl | hm
        · exact hs
        · exact absurd (tornDown?_of_actionMoments hm).1 hb
      · split at hm
        case h_1 hx => exact ih ((running_of_performed hx).trans hs) hm
        case h_2 => cases hm

/-- Whenever an event or a destroy event begins, the simulator refuses to be driven. -/
theorem running_of_within {d : Drive} (hm : m ∈ within meaning fuel d s w)
    (hb : m.deed.began? ≠ none ∨ m.deed.tornDown? ≠ none) : m.state.running = true := by
  have hnone {ns : List (Moment α)} (hns : executed ns = []) (hm : m ∈ ns) : m.deed.began? = none :=
    List.filterMap_eq_nil_iff.1 hns m hm
  cases d with
  | run =>
    have hb : m.deed.began? ≠ none := hb.resolve_right (· (tornDown?_of_runMoments hm))
    simp only [within, runMoments] at hm
    split at hm
    · cases hm
    · rcases List.mem_append.1 hm with hm | hm
      · exact absurd (hnone (executed_arm s) hm) hb
      · split at hm
        · rcases List.mem_cons.1 hm with rfl | hm
          · rfl
          · exact forall_loopMoments (I := fun u => u.running = true)
              (P := fun m => m.deed.began? ≠ none → m.state.running = true) (fun _ _ hs => (running_of_next hs).1)
              (fun _ _ _ hs => (running_of_next hs).2 _) rfl m hm hb
        · cases hm
  | step =>
    have hb : m.deed.began? ≠ none := hb.resolve_right (· (tornDown?_of_stepMoments hm))
    simp only [within, stepMoments] at hm
    split at hm
    · cases hm
    · rcases List.mem_cons.1 hm with rfl | hm
      · rfl
      · exact (running_of_next rfl).1 m hm hb
  | destroy =>
    simp only [within, destroyMoments] at hm
    split at hm
    · cases hm
    · rcases List.mem_append.1 hm with hm | hm
      · rcases List.mem_cons.1 hm with rfl | hm
        · rfl
        · exact running_of_destroyLoopMoments rfl hm
            (hb.resolve_left (· (hnone (executed_destroyLoop meaning fuel _ w) hm)))
      · split at hm
        · cases List.mem_singleton.1 hm
          exact (hb.elim (· rfl) (· rfl)).elim
        · cases hm

/-! ## Every run -/

/-- The stop time never keeps a run from beginning; the run ends at once if it has passed. -/
theorem armStopTime_cases (hs : s.Sound) (ha : s.Aligned) :
    ∃ passed s₁, s.armStopTime = .ok (.ok passed, s₁) ∧ (passed = true ↔ s.StopPassed) := by
  rcases s.stop_cases with hpassed | ⟨⟨hfirst, time, ht, hle⟩, hnot⟩ | ⟨harmed, hnot, -⟩
  · obtain ⟨hfirst, time, ht, hlt⟩ := id hpassed
    refine ⟨true, { s with stopTimeArmed := true }, ?_, by simp [hpassed]⟩
    simp only [armStopTime, hfirst, Bool.false_eq_true, if_false, ht, hlt, if_true]
  · exact ⟨false, _, armStopTime_of_le hs ha hfirst ht hle, by simp [hnot]⟩
  · obtain ⟨s₁, harm, -⟩ := armStopTime_of_armed harmed
    exact ⟨false, s₁, harm, by simp [hnot]⟩

/-- Before its first round, on `s₁`, a run of `s` does no more than to take care of the stop time. -/
structure Prepares (s : Simulator α) (ms : List (Moment α)) (s₁ : Simulator α) (ns : List (Moment α)) : Prop where
  sound : s₁.Sound
  config : s₁.config = s.config
  metrics : s₁.metrics.executed = s.metrics.executed
  stopRequested : s₁.stopRequested = true ↔ s.StopPassed
  suffix : ns <:+ ms
  executed_eq : executed ms = executed ns
  stops : ∀ m ∈ ms, m.deed.stops = true → m ∈ ns

theorem prepares_arm (hs : s.Sound) {passed : Bool} (harm : s.armStopTime = .ok (.ok passed, s₁))
    (hpassed : passed = true ↔ s.StopPassed) (ns : List (Moment α)) :
    Prepares s (armMoments s ++ ⟨.switched, { s₁ with running := true, stopRequested := passed }⟩ :: ns)
      { s₁ with running := true, stopRequested := passed } ns := by
  obtain ⟨t, hpath, ht⟩ := path_arm s
  obtain rfl : s₁ = t := ht _ harm
  obtain ⟨hs₁, -, hconfig⟩ := hpath.sound_settings hs
  have hcount := hpath.executed_eq hs
  have hnone : tornDown (armMoments s) = [] := List.filterMap_eq_nil_iff.2 fun _ => tornDown?_of_armMoments
  rw [executed_arm, hnone] at hcount
  refine ⟨{ hs₁ with }, hconfig, hcount, hpassed, ?_, ?_, fun m hm hstops => ?_⟩
  · exact (List.suffix_cons _ _).trans (List.suffix_append _ _)
  · rw [executed_append, executed_arm, executed_cons_of_none rfl, List.nil_append]
  · rcases List.mem_append.1 hm with hm | hm
    · rcases deed_of_armMoments hm with ⟨time, answer, hd⟩ | hd
      · rw [hd] at hstops
        cases hstops
      · rw [hd] at hstops
        cases hstops
    · rcases List.mem_cons.1 hm with rfl | hm
      · cases hstops
      · exact hm

/-- A run takes care of the stop time, and then goes round by round. -/
theorem exists_runs (hs : s.Sound) (ha : s.Aligned) (hrunning : s.running = false) {answer : Except SimError Report}
    (hx : s.run meaning n w = .ok (answer, s', w')) :
    ∃ s₁ ns result s₂, Prepares s (within meaning n .run s w) s₁ ns ∧ Runs meaning s₁ w ns result s₂ w' ∧
      (∀ reason, result = .ok reason →
        s' = { s₂ with running := false, stopReason := some reason } ∧ answer = .ok s'.report) ∧
      ∀ e, result = .error e → s' = { s₂ with running := false } ∧ answer = .error e := by
  obtain ⟨passed, s₀, harm, hpassed⟩ := armStopTime_cases hs ha
  simp only [run, hrunning, Bool.false_eq_true, if_false, harm, bind, Except.bind] at hx
  cases hl : runLoop meaning n { s₀ with running := true, stopRequested := passed } w with
  | error f =>
    rw [hl] at hx
    cases hx
  | ok x =>
    rw [hl] at hx
    obtain ⟨result, s₂, w₂⟩ := x
    have hw : w₂ = w' := by cases result <;> cases hx <;> rfl
    refine ⟨_, _, result, s₂, ?_, hw ▸ runs_of_runLoop hl, ?_, ?_⟩
    · simp only [within, runMoments, hrunning, Bool.false_eq_true, if_false, harm]
      exact prepares_arm hs harm hpassed _
    · rintro reason rfl
      cases hx
      exact ⟨rfl, rfl⟩
    · rintro e rfl
      cases hx
      exact ⟨rfl, rfl⟩

/-- A run loses no event. -/
theorem pends_after_run (hs : s.Sound) {answer : Except SimError Report}
    (hx : s.run meaning n w = .ok (answer, s', w')) (hr : s.Pends r) :
    s'.Pends r ∨ r ∈ executed (within meaning n .run s w) ∨ ∃ m ∈ within meaning n .run s w, m.deed.Cancels r.uid := by
  obtain ⟨t, hpath, hlast⟩ := answers_within meaning n .run s w
  rcases hpath.fate_of_pends hs (.inl hr) with hr | hex | hc | ⟨m, hm, hc⟩
  · left
    cases hlast _ hx
    exact hr
  · exact .inr (.inl hex)
  · exact .inr (.inr hc)
  · exact absurd hc (not_cleared_of_runMoments hm)

/-- A run is asked for an end: its stop time is still to be armed and has passed, or an action asks for it. -/
def Asked (s : Simulator α) (ms : List (Moment α)) : Prop := s.StopPassed ∨ ∃ m ∈ ms, m.deed.stops = true

/-- Why a run of `s` with these moments ends without an error, and leaves `s'` behind. -/
inductive Ends (s : Simulator α) (ms : List (Moment α)) (s' : Simulator α) : StopReason → Prop
  | stopped (h : s.Asked ms) : Ends s ms s' .stopped
  | eventLimit (h : ¬ s.Asked ms) (hlimit : s'.limitReached = true) : Ends s ms s' .eventLimit
  | queueEmpty (h : ¬ s.Asked ms) (hlimit : s'.limitReached = false) (hpending : s'.pending = 0) : Ends s ms s' .queueEmpty

theorem Prepares.asked_iff (h : s.Prepares ms s₁ ns) (hruns : Runs meaning s₁ w ns result s₂ w') :
    s.Asked ms ↔ s₂.stopRequested = true := by
  rw [hruns.stopRequested_eq h.sound, Bool.or_eq_true, h.stopRequested, List.any_eq_true]
  exact or_congr_right ⟨fun ⟨m, hm, hstops⟩ => ⟨m, h.stops m hm hstops, hstops⟩,
    fun ⟨m, hm, hstops⟩ => ⟨m, h.suffix.subset hm, hstops⟩⟩

theorem Prepares.ends (h : s.Prepares ms s₁ ns) {reason : StopReason} (hruns : Runs meaning s₁ w ns (.ok reason) s₂ w') :
    s.Ends ms { s₂ with running := false, stopReason := some reason } reason := by
  have hnot (hf : s₂.stopRequested = false) : ¬ s.Asked ms := by simp [h.asked_iff hruns, hf]
  rcases hruns.reason_cases h.sound rfl with ⟨rfl, hstop⟩ | ⟨rfl, hstop, hlimit⟩ | ⟨rfl, hstop, hlimit, hpending⟩
  · exact .stopped ((h.asked_iff hruns).2 hstop)
  · exact .eventLimit (hnot hstop) hlimit
  · exact .queueEmpty (hnot hstop) hlimit hpending

/-- Whoever drives the simulator is refused and changes nothing, so that every program comes to what it comes to with
refusals. -/
def Refuses (meaning : Meaning α ω) (s : Simulator α) : Prop :=
  ∀ fuel w, (∀ d, handler meaning fuel d s w = .ok (Drive.refuse α d, s, w)) ∧
    ∀ {σ : Type} (p : Program α ω σ), p.exec (handler meaning fuel) s w = p.exec Handler.refuse s w

theorem refuses_of_running (h : s.running = true) : s.Refuses meaning :=
  fun _ w => ⟨fun d => handler_of_running h d w, fun p => exec_of_running h p w⟩

/-- **How runs end.** Between the requests of a driver, a run that ends without an error reports the clock, the pending events
and the counters of the simulator that it leaves behind, and one of three reasons. It was stopped if its stop time was still
to be armed and had passed, and then it has executed nothing, or if an action of the run asked for an end, and that is the
action of the last event that it executed. Otherwise it ended by the limit if at least as many events as are allowed have been
executed in total, of which it executed no more than were left of the limit; and otherwise no event is pending. If a run ends
with an error, that is the one of the action of the last event that it executed, the clock stands at the time of that event,
and all events that are pending then stay pending, until another run executes them or they are cancelled.

While an action is executed, the simulator refuses to be driven and stays as it is. When it was driven, it does not count as
executing an action any more. -/
theorem run_ends {owner : Nat} {config : Config} {p : Program α ω ρ} {w₀ : ω} {res : Except SimError ρ}
    (hp : p.exec (handler meaning fuel) (ofConfig owner config) w₀ = .ok (res, s, w)) (n : Nat) :
    let ms := within meaning n .run s w
    (∀ report s' w', s.run meaning n w = .ok (.ok report, s', w') →
      (report = s'.report ∧ report.finalTime = s'.now ∧ report.pending = s'.pending ∧ report.metrics = s'.metrics) ∧
      s'.metrics.executed = s.metrics.executed + (executed ms).length ∧
      (∀ limit, config.maxEvents = some limit → (executed ms).length ≤ limit.toNat - s.metrics.executed) ∧
      (∃ reason, report.stopReason = some reason ∧ s.Ends ms s' reason) ∧
      (s.StopPassed → executed ms = []) ∧
      ∀ m ∈ ms, m.deed.stops = true → ∃ r s₁ w₁, eventMoments meaning r s₁ w₁ <:+ ms ∧
        m ∈ actionMoments meaning r.action s₁ w₁) ∧
    (∀ e s' w', s.run meaning n w = .ok (.error e, s', w') → ∃ r s₁ w₁ s₂, eventMoments meaning r s₁ w₁ <:+ ms ∧
      Simulator.perform meaning r.action s₁ w₁ = .ok (.error e, s₂, w') ∧ s' = { s₂ with running := false } ∧
      s'.now = r.time ∧
      ∀ r', s₂.Pends r' → s'.Pends r' ∧ ∀ k answer s'' w'', s'.run meaning k w' = .ok (answer, s'', w'') →
        s''.Pends r' ∨ r' ∈ executed (within meaning k .run s' w') ∨
          ∃ m ∈ within meaning k .run s' w', m.deed.Cancels r'.uid) ∧
    (∀ d, ∀ m ∈ within meaning n d s w, m.deed.began? ≠ none ∨ m.deed.tornDown? ≠ none → m.state.Refuses meaning) ∧
    ∀ d x, handler meaning n d s w = .ok x → x.2.1.running = false := by
  intro ms
  obtain ⟨hs, ha, hconfig⟩ : s.Sound ∧ s.Aligned ∧ s.config = config := kept_of_exec hp
  have hrunning : s.running = false := running_of_exec hp rfl
  refine ⟨fun report s' w' hx => ?_, fun e s' w' hx => ?_, fun d m hm hb => refuses_of_running (running_of_within hm hb),
    fun d x hx => running_of_handler d hx hrunning⟩
  · obtain ⟨s₁, ns, result, s₂, hprepares, hruns, hok, herror⟩ := exists_runs hs ha hrunning hx
    cases result with
    | error e => cases (herror e rfl).2
    | ok reason =>
    obtain ⟨rfl, hreport⟩ := hok reason rfl
    cases hreport
    have hprepares : s.Prepares ms s₁ ns := hprepares
    refine ⟨⟨rfl, rfl, rfl, rfl⟩, ?_, fun limit hl => ?_, ⟨reason, rfl, hprepares.ends hruns⟩, fun hpassed => ?_,
      fun m hm hstops => ?_⟩
    · exact (hruns.executed_eq hprepares.sound).trans (by rw [hprepares.metrics, hprepares.executed_eq])
    · rw [hprepares.executed_eq, ← hprepares.metrics]
      exact hruns.length_executed_le hprepares.sound (by rw [hprepares.config, hconfig, hl])
    · rw [hprepares.executed_eq, hruns.of_stopRequested (hprepares.stopRequested.2 hpassed)]
      rfl
    · obtain ⟨r, s₁, w₁, hlast, hm⟩ := hruns.last_of_stops hprepares.sound (hprepares.stops m hm hstops) hstops
      exact ⟨r, s₁, w₁, hlast.trans hprepares.suffix, hm⟩
  · obtain ⟨s₁, ns, result, s₂, hprepares, hruns, hok, herror⟩ := exists_runs hs ha hrunning hx
    cases result with
    | ok reason => cases (hok reason rfl).2
    | error e' =>
    obtain ⟨rfl, he⟩ := herror e' rfl
    cases he
    obtain ⟨r, s₀, w₀, hlast, hperform, hnow⟩ := hruns.last_of_error hprepares.sound rfl
    have hs₂ : s₂.Sound := (hruns.path.sound_settings hprepares.sound).1
    exact ⟨r, s₀, w₀, s₂, hlast.trans hprepares.suffix, hperform, rfl, hnow, fun r' hr' =>
      ⟨hr', fun k answer s'' w'' hx => pends_after_run { hs₂ with } hx hr'⟩⟩

/-! ## Runs that end in different ways -/

/-- So many nanoseconds. -/
def nanoseconds (n : Fin 100) : Time := ⟨1_000_000 * (n.val : Int), by omega, by have := n.isLt; omega⟩

/-- The first action drives the simulator and then asks for an end, the second fails, and the others do nothing. -/
def stopsOrFails : Meaning Nat Unit
  | 0 => do
    let _ ← Program.requestDrive .run
    Program.request .stop
  | 1 => .fail (.model "failed")
  | _ => .done ()

/-- Three events, one in each of the next three nanoseconds. -/
def threeDue : Program Nat Unit Unit := do
  let _ ← Program.request (.schedule (nanoseconds 1) 0)
  let _ ← Program.request (.schedule (nanoseconds 2) 1)
  let _ ← Program.request (.schedule (nanoseconds 3) 2)

/-- The first run is stopped by the action of its event, and the next one fails with that of another. -/
theorem run_ends_threeDue : ∃ (s s₁ s₂ : Simulator Nat) (report : Report) (e : SimError),
    threeDue.exec (handler stopsOrFails 4) (ofConfig 0 {}) () = .ok (.ok (), s, ()) ∧
      s.run stopsOrFails 4 () = .ok (.ok report, s₁, ()) ∧ report.stopReason = some .stopped ∧
      s.Asked (within stopsOrFails 4 .run s ()) ∧ report.pending = s₁.pending ∧
      s₁.run stopsOrFails 4 () = .ok (.error e, s₂, ()) ∧ s₂.running = false ∧
      ∃ r, r ∈ executed (within stopsOrFails 4 .run s₁ ()) ∧ s₂.now = r.time := by
  have hrun : ((threeDue.exec (handler stopsOrFails 4) (ofConfig 0 {}) ()).toOption.bind fun x =>
      (x.2.1.run stopsOrFails 4 ()).toOption.bind fun y => (y.2.1.run stopsOrFails 4 ()).toOption.map fun z =>
        (x.1.toOption, y.1.toOption.map Report.stopReason, z.1.toOption.map Report.stopReason)) =
      some (some (), some (some .stopped), none) := by
    decide +kernel
  obtain ⟨⟨res, s, ⟨⟩⟩, hp, hrun⟩ := Option.bind_eq_some_iff.1 hrun
  obtain ⟨⟨answer, s₁, ⟨⟩⟩, hx, hrun⟩ := Option.bind_eq_some_iff.1 hrun
  obtain ⟨⟨answer', s₂, ⟨⟩⟩, hx', hrun⟩ := Option.map_eq_some_iff.1 hrun
  simp only [Prod.mk.injEq, Option.map_eq_some_iff, Option.map_eq_none_iff, Outcome.toOption_eq_some_iff] at hrun
  obtain ⟨rfl, ⟨report, rfl, hreason⟩, herror⟩ := hrun
  rw [Outcome.toOption_eq_some_iff] at hp hx hx'
  obtain ⟨e, rfl⟩ : ∃ e, answer' = .error e := by
    cases answer' with
    | error e => exact ⟨e, rfl⟩
    | ok => cases herror
  obtain ⟨hok, -, -, -⟩ := run_ends hp 4
  obtain ⟨⟨-, -, hpending, -⟩, -, -, ⟨reason, hreason', hends⟩, -⟩ := hok report s₁ () hx
  have hasked : s.Asked (within stopsOrFails 4 .run s ()) := by
    cases hends with
    | stopped h => exact h
    | eventLimit | queueEmpty => cases hreason.symm.trans hreason'
  -- The second run follows on the first.
  have hp₁ : (threeDue >>= fun _ => Program.requestDrive .run).exec (handler stopsOrFails 4) (ofConfig 0 {}) () =
      .ok (.ok (.ok report), s₁, ()) := by
    rw [Program.exec_bind, hp]
    simp only [Program.requestDrive, Program.exec, handler, hx]
  obtain ⟨-, hfails, -, hidle⟩ := run_ends hp₁ 4
  obtain ⟨r, u, ⟨⟩, -, hlast, -, -, hnow, -⟩ := hfails e s₂ () hx'
  exact ⟨s, s₁, s₂, report, e, hp, hx, hreason, hasked, hpending, hx', hidle .run _ hx', r,
    List.mem_filterMap.2 ⟨_, hlast.subset List.mem_cons_self, rfl⟩, hnow⟩

/-- Two events come after the stop time. -/
def afterStopTime : Program Unit Unit Unit := do
  let _ ← Program.request (.schedule (nanoseconds 10) ())
  let _ ← Program.request (.schedule (nanoseconds 20) ())
  let _ ← Program.requestDrive .step
  let _ ← Program.requestDrive .run

/-- Though the stop time has passed when it begins, a run goes on until no event is pending, since the run before it was
stopped already. -/
theorem exists_stopTime_passed_and_queueEmpty :
    ∃ (s s' : Simulator Unit) (report : Report) (stopTime : Time),
      afterStopTime.exec (handler (fun _ => .done ()) 2) (ofConfig 0 { stopTime := some stopTime }) () =
        .ok (.ok (), s, ()) ∧
      s.running = false ∧ stopTime < s.now ∧
      s.run (fun _ => .done ()) 2 () = .ok (.ok report, s', ()) ∧ report.stopReason = some .queueEmpty := by
  have hrun : ((afterStopTime.exec (handler (fun _ => .done ()) 2)
      (ofConfig 0 { stopTime := some (nanoseconds 5) }) ()).toOption.bind fun x =>
        (x.2.1.run (fun _ => .done ()) 2 ()).toOption.map fun y =>
          (x.1.toOption, x.2.1.running, x.2.1.now.femtos, y.1.toOption.map Report.stopReason)) =
      some (some (), false, 10_000_000, some (some .queueEmpty)) := by
    decide +kernel
  obtain ⟨⟨res, s, ⟨⟩⟩, hp, hrun⟩ := Option.bind_eq_some_iff.1 hrun
  obtain ⟨⟨answer, s', ⟨⟩⟩, hx, hrun⟩ := Option.map_eq_some_iff.1 hrun
  simp only [Prod.mk.injEq, Option.map_eq_some_iff, Outcome.toOption_eq_some_iff] at hp hx hrun
  obtain ⟨rfl, hrunning, hnow, report, rfl, hreason⟩ := hrun
  have hlt : nanoseconds 5 < s.now := by
    change (nanoseconds 5).femtos < s.now.femtos
    rw [hnow]
    decide
  exact ⟨s, s', report, _, hp, hrunning, hlt, hx, hreason⟩

end Simulator

end SimKernel
