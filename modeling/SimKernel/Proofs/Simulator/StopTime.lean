import SimKernel.Proofs.Simulator.Driving
import SimKernel.Proofs.Simulator.Fate

/-!
# The stop time

The first run schedules an event that stops it, at the whole ticks of the configured stop time, unless that is past
(`armStopTime_of_le`). As long as this event is pending, no other event begins that comes after it. A run that nothing else
ends is ended by it, when exactly the events before it were executed (`Unaided.ends`). `stops_at_stopTime` puts this
together; a teardown forgets the event, and runs after it go on (`executed_after_teardown`).
-/

namespace SimKernel

variable {α ω ρ σ : Type}

/-- The run is asked to end. -/
def Deed.stops : Deed α → Bool
  | called .stop _ => true
  | _ => false

/-- Another event than the one with the number begins, or none. -/
def Deed.spares (uid : Nat) (d : Deed α) : Bool := d.began?.map EventRecord.uid != some uid

namespace Simulator

variable {meaning : Meaning α ω} {fuel : Nat} {s s' : Simulator α} {w w' : ω}

/-! ## Arming -/

/-- The event that the first run schedules for the stop time. -/
def stopEvent (s : Simulator α) (time : Time) : EventRecord (Action α) := ⟨s.nextUid, time, s.context, .stop⟩

/-- The simulator on which the first run executes events. -/
def armed (s : Simulator α) (time : Time) : Simulator α :=
  (({ s with stopTimeArmed := true } : Simulator α).insert time s.context .stop).2

/-- The whole ticks of the delay until a time lead to the whole ticks of the time. -/
theorem Resolution.quantize_sub {resolution : Resolution} {now time delay : Time} (hnow : 0 ≤ now.femtos)
    (hd : (resolution.unit.femtos : Int) ∣ now.femtos) (hle : now.femtos ≤ time.femtos)
    (hdelay : delay.femtos = time.femtos - now.femtos) :
    now.femtos + (resolution.quantize delay).femtos = (resolution.quantize time).femtos := by
  change now.femtos + resolution.wholeTicks delay.femtos = resolution.wholeTicks time.femtos
  rw [← Resolution.wholeTicks_add hnow hd (by omega), hdelay, Int.add_comm, Int.sub_add_cancel]

/-- An event at a time that is not past is never refused, and it is due at the whole ticks of that time. -/
theorem scheduleAt_of_le (hs : s.Sound) (ha : s.Aligned) {time : Time} (hle : s.now ≤ time) (action : Action α) :
    s.scheduleAt time action = .ok (.ok (s.insert (s.config.resolution.quantize time) s.context action)) := by
  have hnow := hs.now_nonneg
  have hle : s.now.femtos ≤ time.femtos := hle
  obtain ⟨delay, hdelay⟩ : ∃ d, Time.ofFemtos? (time.femtos - s.now.femtos) = some d :=
    ⟨_, dif_pos ⟨by omega, by have := time.lt_bound; omega⟩⟩
  have hd : delay.femtos = time.femtos - s.now.femtos := Time.ofFemtos?_eq_some_iff.1 hdelay
  have hneg : delay.isNegative = false := Time.isNegative_eq_false_iff.2 (by omega)
  have hadd : s.now.checkedAdd (s.config.resolution.quantize delay) = some (s.config.resolution.quantize time) :=
    Time.ofFemtos?_eq_some_iff.2 (Resolution.quantize_sub hnow ha.now hle hd).symm
  simp only [scheduleAt, Time.sub, Time.ofFemtos, hdelay, bind, Except.bind, pure, Except.pure, scheduleIn, hneg,
    Bool.false_eq_true, if_false, hadd]

/-- The flag makes no difference to queue, slots and clock. -/
theorem Sound.setArmed (hs : s.Sound) : ({ s with stopTimeArmed := true } : Simulator α).Sound := { hs with }

theorem armStopTime_of_le (hs : s.Sound) (ha : s.Aligned) (hfirst : s.stopTimeArmed = false) {time : Time}
    (ht : s.config.stopTime = some time) (hle : s.now ≤ time) :
    s.armStopTime = .ok (.ok false, s.armed (s.config.resolution.quantize time)) := by
  have hat := scheduleAt_of_le hs.setArmed ⟨ha.now, ha.due⟩ hle .stop
  have hnot : ¬ time < s.now := Int.not_lt.2 hle
  simp only [armStopTime, hfirst, Bool.false_eq_true, if_false, ht, hnot, hat, bind, Except.bind, pure, Except.pure]
  rfl

theorem Sound.armed (hs : s.Sound) {time : Time} (hle : s.now.femtos ≤ time.femtos) : (s.armed time).Sound :=
  hs.setArmed.insert hle s.context .stop

theorem record?_armed (hs : s.Sound) (time : Time) :
    (s.armed time).slots.record? s.slots.nextSlot = some (s.stopEvent time) :=
  (hs.setArmed.record?_insert time s.context .stop s.slots.nextSlot).trans (if_pos rfl)

/-- What the first run does before it executes events. -/
theorem armMoments_of_le (hs : s.Sound) (ha : s.Aligned) (hfirst : s.stopTimeArmed = false) {time : Time}
    (ht : s.config.stopTime = some time) (hle : s.now ≤ time) :
    ∃ id, armMoments s = [⟨.switched, { s with stopTimeArmed := true }⟩,
      ⟨.called (.stopAt time) (.ok id), s.armed (s.config.resolution.quantize time)⟩] := by
  have hat := scheduleAt_of_le hs.setArmed ⟨ha.now, ha.due⟩ hle .stop
  have hnot : ¬ time < s.now := Int.not_lt.2 hle
  refine ⟨(({ s with stopTimeArmed := true } : Simulator α).insert (s.config.resolution.quantize time) s.context
    .stop).1, ?_⟩
  simp only [armMoments, hfirst, Bool.false_eq_true, if_false, ht, hnot, Call.perform, hat]
  rfl

/-! ## Events of a run -/

/-- Only the request to stop asks a run to end. -/
theorem stopRequested_of_perform {c : Call α} {answer : c.Answer} (hc : c.perform s = .ok (answer, s')) :
    s'.stopRequested = (s.stopRequested || (Deed.called c answer).stops) := by
  cases c with
  | schedule | scheduleIn | stopAfter =>
    rcases keep_cases (Except.ok.inj hc) with rfl | ⟨time, -, rfl⟩
    · exact (Bool.or_false _).symm
    · exact (Bool.or_false _).symm
  | scheduleAt | stopAt =>
    rcases keep_scheduleAt_cases hc with rfl | ⟨time, -, rfl⟩
    · exact (Bool.or_false _).symm
    · exact (Bool.or_false _).symm
  | scheduleNow | scheduleDestroy | setRng =>
    cases hc
    exact (Bool.or_false _).symm
  | cancel id =>
    rcases cancel_eq_ok hc with ⟨-, rfl, -⟩ | ⟨e, -, -, -, -, rfl⟩ | ⟨r, slots, -, -, -, rfl⟩
    · exact (Bool.or_false _).symm
    · exact (Bool.or_false _).symm
    · exact (Bool.or_false _).symm
  | stop =>
    cases hc
    exact (Bool.or_true _).symm

theorem stopRequested_of_exec_refuse {p : Program α ω ρ} {x : Outcome α ω ρ} (h : p.exec Handler.refuse s w = .ok x) :
    x.2.1.stopRequested =
      (s.stopRequested || (p.moments Handler.refuse (fun _ _ _ => []) s w).any fun m => m.deed.stops) := by
  induction p generalizing s w with
  | done | fail =>
    cases h
    exact (Bool.or_false _).symm
  | fault => cases h
  | ask q next ih =>
    obtain ⟨a, ha, hrest⟩ := Program.exec_ask_eq_ok h
    simp only [Program.moments, ha]
    exact ih a hrest
  | call c next ih =>
    obtain ⟨a, s₁, hc, hrest⟩ := Program.exec_call_eq_ok h
    simp only [Program.moments, hc, List.any_cons, ← Bool.or_assoc]
    rw [← stopRequested_of_perform hc]
    exact ih a hrest
  | drive d next ih => exact ih _ h
  | look next ih => exact ih w h
  | change g next ih => exact ih h

/-- Whether the end of the run is requested when an action has been performed. -/
theorem stopRequested_of_action {action : Action α} {x : Outcome α ω Unit} (h : perform meaning action s w = .ok x) :
    x.2.1.stopRequested = (s.stopRequested || (actionMoments meaning action s w).any fun m => m.deed.stops) := by
  cases action with
  | stop =>
    cases h
    exact (Bool.or_true _).symm
  | perform a => exact stopRequested_of_exec_refuse h

/-- Inside actions requests are answered, and nothing else happens. -/
theorem deed_of_moments_refuse {p : Program α ω ρ} {m : Moment α}
    (hm : m ∈ p.moments Handler.refuse (fun _ _ _ => []) s w) :
    (∃ c answer, m.deed = .called c answer) ∨ m.deed = .switched := by
  induction p generalizing s w with
  | done | fail | fault => cases hm
  | ask q next ih =>
    simp only [Program.moments] at hm
    cases ha : q.answer s with
    | error f => rw [ha] at hm; cases hm
    | ok a => rw [ha] at hm; exact ih a hm
  | call c next ih =>
    simp only [Program.moments] at hm
    cases ha : c.perform s with
    | error f => rw [ha] at hm; cases hm
    | ok a =>
      rw [ha] at hm
      rcases List.mem_cons.1 hm with rfl | hm
      · exact .inl ⟨c, a.1, rfl⟩
      · exact ih a.1 hm
  | drive d next ih =>
    rcases List.mem_cons.1 hm with rfl | hm
    · exact .inr rfl
    · exact ih _ hm
  | look next ih => exact ih w hm
  | change g next ih => exact ih hm

theorem deed_of_actionMoments {action : Action α} {m : Moment α} (hm : m ∈ actionMoments meaning action s w) :
    (∃ c answer, m.deed = .called c answer) ∨ m.deed = .switched := by
  cases action with
  | stop => exact .inl ⟨.stop, (), congrArg Moment.deed (List.mem_singleton.1 hm)⟩
  | perform a => exact deed_of_moments_refuse hm

theorem began?_of_actionMoments {action : Action α} {m : Moment α} (hm : m ∈ actionMoments meaning action s w) :
    m.deed.began? = none ∧ m.deed ≠ .cleared := by
  rcases deed_of_actionMoments hm with ⟨c, answer, hd⟩ | hd
  · rw [hd]
    exact ⟨rfl, by rintro ⟨⟩⟩
  · rw [hd]
    exact ⟨rfl, by rintro ⟨⟩⟩

/-- Arming the stop time asks for an event at most. -/
theorem deed_of_armMoments {m : Moment α} (hm : m ∈ armMoments s) :
    (∃ time answer, m.deed = .called (.stopAt time) answer) ∨ m.deed = .switched := by
  unfold armMoments at hm
  split at hm
  · cases hm
  · rcases List.mem_cons.1 hm with rfl | hm
    · exact .inr rfl
    · split at hm
      · cases hm
      · split at hm
        · cases hm
        · split at hm
          · cases List.mem_singleton.1 hm
            exact .inl ⟨_, _, rfl⟩
          · cases hm

/-- What holds of the moments of every event that is executed next holds of the moments of a run. -/
theorem forall_loopMoments {I : Simulator α → Prop} {P : Moment α → Prop}
    (hnext : ∀ s w, I s → ∀ m ∈ nextMoments meaning s w, P m)
    (hkeep : ∀ s w x, I s → processNext meaning s w = .ok x → I x.2.1) (hs : I s) :
    ∀ m ∈ loopMoments meaning fuel s w, P m := by
  intro m hm
  induction fuel generalizing s w with
  | zero => cases hm
  | succ fuel ih =>
    rw [loopMoments] at hm
    split at hm
    · cases hm
    · rcases List.mem_append.1 hm with hm | hm
      · exact hnext s w hs m hm
      · split at hm
        case h_1 hx => exact ih (hkeep s w _ hs hx) hm
        case h_2 => cases hm

/-- In the course of these moments nothing but the event `stop` ends the run: nobody cancels it, and nobody asks for an end
before it begins. -/
structure Unaided (stop : EventRecord (Action α)) (ms : List (Moment α)) : Prop where
  uncancelled : ∀ m ∈ ms, ¬ m.deed.Cancels stop.uid
  unstopped : ∀ m ∈ ms.takeWhile fun m => m.deed.spares stop.uid, m.deed.stops = false

/-- The moments end with the event `stop`, after events that come before it, and those that are left come after it. -/
structure EndsAt (stop : EventRecord (Action α)) (ms : List (Moment α)) (reason : StopReason) (s : Simulator α) : Prop where
  reason : reason = .stopped
  now : s.now = stop.time
  executed : ∃ es, executed ms = es ++ [stop] ∧ ∀ r ∈ es, r.before stop
  left : ∀ r, s.Pends r → stop.before r

variable {stop : EventRecord (Action α)} {ms ns : List (Moment α)}

theorem Unaided.of_append (h : Unaided stop (ms ++ ns)) (hms : ∀ m ∈ ms, m.deed.spares stop.uid) :
    Unaided stop ns ∧ ∀ m ∈ ms, m.deed.stops = false := by
  have hunstopped := h.unstopped
  rw [List.takeWhile_append_of_pos hms] at hunstopped
  exact ⟨⟨fun m hm => h.uncancelled m (List.mem_append_right _ hm),
    fun m hm => hunstopped m (List.mem_append_right _ hm)⟩, fun m hm => hunstopped m (List.mem_append_left _ hm)⟩

theorem EndsAt.append {reason : StopReason} (h : EndsAt stop ns reason s) {es : List (EventRecord (Action α))}
    (hms : SimKernel.executed ms = es) (hes : ∀ r ∈ es, r.before stop) : EndsAt stop (ms ++ ns) reason s := by
  obtain ⟨es', he, hbefore⟩ := h.executed
  refine ⟨h.reason, h.now, ⟨es ++ es', ?_, ?_⟩, h.left⟩
  · rw [executed_append, hms, he, List.append_assoc]
  · intro r hr
    rcases List.mem_append.1 hr with hr | hr
    · exact hes r hr
    · exact hbefore r hr

/-- The stop event begins, and the run is asked to end. -/
theorem endsAt_of_began (hs : s.Sound) {s₁ s₂ : Simulator α} (hn : s.nextEvent = (some stop, s₁))
    (ha : s₁.advance stop = .ok s₂) :
    EndsAt stop [⟨.began stop, s₂⟩, ⟨.called .stop (), s₂.stop⟩] .stopped s₂.stop := by
  obtain ⟨hnow, -, -, -, slot, hr, hrec, hleast⟩ := hs.step_began (.began hn ha)
  refine ⟨rfl, hnow, ⟨[], rfl, fun _ hr => absurd hr List.not_mem_nil⟩, ?_⟩
  rintro r ⟨slot', hr'⟩
  have hr' : s₂.slots.record? slot' = some r := hr'
  rw [hrec] at hr'
  split at hr'
  · cases hr'
  · exact hleast slot' r hr' ‹_›

/-- The event that begins is not the stop event, so its action neither asks for an end nor cancels the stop event. -/
theorem Unaided.perform (hs : s.Sound) {slot : Nat} (hr : s.slots.record? slot = some stop) {r : EventRecord (Action α)}
    {s₂ : Simulator α} (hstep : s.Step ⟨.began r, s₂⟩) (hne : r ≠ stop)
    (h : Unaided stop (⟨.began r, s₂⟩ :: actionMoments meaning r.action s₂ w ++ ms)) {x : Outcome α ω Unit}
    (hx : perform meaning r.action s₂ w = .ok x) :
    Unaided stop ms ∧ x.2.1.Sound ∧ x.2.1.slots.record? slot = some stop ∧
      x.2.1.stopRequested = s₂.stopRequested := by
  have huid : r.uid ≠ stop.uid := by
    intro hu
    obtain ⟨-, -, -, -, slot', hr', -⟩ := hs.step_began hstep
    exact hne (hs.slot_unique hr' hr hu).2
  have hnot : ∀ m ∈ (⟨.began r, s₂⟩ :: actionMoments meaning r.action s₂ w : List (Moment α)), m.deed.spares stop.uid := by
    intro m hm
    rcases List.mem_cons.1 hm with rfl | hm
    · simpa [Deed.spares, Deed.began?] using huid
    · rw [Deed.spares, (began?_of_actionMoments hm).1]
      rfl
  obtain ⟨hrest, hstops⟩ := h.of_append hnot
  have hs₂ : s₂.Sound := Sound.step s _ hs hstep
  have hpath := (leads_action meaning s₂ w r.action).path hx
  have hr₂ : s₂.slots.record? slot = some stop := by
    refine hs.record?_of_not_ends hstep hr ?_
    rintro (⟨r', hd, hu⟩ | hd | hd)
    · cases hd
      exact huid hu
    · cases hd
    · cases hd
  have hend := hpath.invariant (I := fun u => u.Sound) (fun u m hu hum => Sound.step u m hu hum) hs₂
  refine ⟨hrest, hend.1, ?_, ?_⟩
  · rcases hpath.fate hs₂ hr₂ with hr | hex | ⟨m, hm, hc⟩ | ⟨m, hm, hc⟩
    · exact hr
    · rw [executed_action] at hex
      cases hex
    · exact absurd hc (h.uncancelled m (List.mem_append_left _ (List.mem_cons_of_mem _ hm)))
    · exact absurd hc (began?_of_actionMoments hm).2
  · have hnone : (actionMoments meaning r.action s₂ w).any (fun m => m.deed.stops) = false :=
      List.any_eq_false.2 fun m hm => by simp [hstops m (List.mem_cons_of_mem _ hm)]
    rw [stopRequested_of_action hx, hnone, Bool.or_false]

/-- One round of a run that ended without an error: the next event begins, its action does not fail, and the run goes on. -/
theorem runLoop_round {s₁ s₂ : Simulator α} {r : EventRecord (Action α)} (hrequested : s.stopRequested = false)
    (hl : ¬ s.limitReached) (hn : s.nextEvent = (some r, s₁)) (ha : s₁.advance r = .ok s₂) {reason : StopReason}
    (hx : runLoop meaning (fuel + 1) s w = .ok (.ok reason, s', w')) :
    ∃ s₃ w₃, Simulator.perform meaning r.action s₂ w = .ok (.ok (), s₃, w₃) ∧
      Simulator.runLoop meaning fuel s₃ w₃ = .ok (.ok reason, s', w') ∧
      loopMoments meaning (fuel + 1) s w =
        ⟨.began r, s₂⟩ :: actionMoments meaning r.action s₂ w ++ loopMoments meaning fuel s₃ w₃ := by
  rw [runLoop, processNext_of_some meaning w hn ha] at hx
  rw [loopMoments, processNext_of_some meaning w hn ha, nextMoments_of_some meaning w hn ha]
  simp only [hrequested, hl, Bool.false_eq_true, or_self, if_false] at hx ⊢
  generalize Simulator.perform meaning r.action s₂ w = x at hx ⊢
  rcases x with f | ⟨e | ⟨⟩, s₃, w₃⟩
  · cases hx
  · cases hx
  · exact ⟨s₃, w₃, rfl, hx, rfl⟩

/-- A run that was asked to end executes nothing more. -/
theorem runLoop_of_stopRequested (hrequested : s.stopRequested = true) {reason : StopReason}
    (hx : runLoop meaning fuel s w = .ok (.ok reason, s', w')) :
    reason = .stopped ∧ s' = s ∧ loopMoments meaning fuel s w = [] := by
  cases fuel with
  | zero => cases hx
  | succ fuel =>
    rw [runLoop, if_pos hrequested] at hx
    cases hx
    exact ⟨rfl, rfl, if_pos (.inl hrequested)⟩

theorem stopRequested_of_next {s₁ s₂ : Simulator α} {r : EventRecord (Action α)} (hs : s.Sound)
    (hn : s.nextEvent = (some r, s₁)) (ha : s₁.advance r = .ok s₂) : s₂.stopRequested = s.stopRequested := by
  obtain ⟨-, hbesides, -⟩ := hs.nextEvent_eq_some hn
  obtain ⟨-, rfl⟩ := advance_eq_ok ha
  change s₁.stopRequested = s.stopRequested
  rw [hbesides]

/-- A run that nothing else ends is ended by the stop event. By induction on the number of events, with the stop event
pending as the invariant. -/
theorem Unaided.runLoop (hs : s.Sound) {slot : Nat} (hr : s.slots.record? slot = some stop) (hstop : stop.action = .stop)
    (hrequested : s.stopRequested = false) {reason : StopReason}
    (hx : runLoop meaning fuel s w = .ok (.ok reason, s', w')) (hlimit : reason ≠ .eventLimit)
    (h : Unaided stop (loopMoments meaning fuel s w)) : EndsAt stop (loopMoments meaning fuel s w) reason s' := by
  induction fuel generalizing s w with
  | zero => cases hx
  | succ fuel ih =>
    by_cases hl : s.limitReached
    · simp only [Simulator.runLoop, hrequested, hl, Bool.false_eq_true, if_false, if_true] at hx
      cases hx
      exact absurd rfl hlimit
    obtain ⟨⟨_ | r, s₁⟩, hn⟩ : ∃ x, s.nextEvent = x := ⟨_, rfl⟩
    · cases ((hs.nextEvent_eq_none hn).2.1 slot).symm.trans hr
    obtain ⟨s₂, ha⟩ := hs.advance hn
    obtain ⟨s₃, w₃, hp, hx, hms⟩ := runLoop_round hrequested hl hn ha hx
    rw [hms] at h ⊢
    by_cases he : r = stop
    · -- The stop event begins, and nothing is executed after it.
      subst he
      rw [hstop] at hp ⊢
      cases hp
      obtain ⟨rfl, rfl, hnone⟩ := runLoop_of_stopRequested rfl hx
      rw [hnone, List.append_nil]
      exact endsAt_of_began hs hn ha
    · -- Another event begins, and the stop event is still pending when its action has ended.
      have hbefore := (hs.began_of_pending hr (.began hn ha)).resolve_left he
      obtain ⟨hrest, hs₃, hr₃, hsame⟩ := h.perform hs hr (.began hn ha) he hp
      have hrequested₃ : s₃.stopRequested = false := (hsame.trans (stopRequested_of_next hs hn ha)).trans hrequested
      have hone : executed (⟨.began r, s₂⟩ :: actionMoments meaning r.action s₂ w : List (Moment α)) = [r] :=
        congrArg (r :: ·) (executed_action meaning r.action s₂ w)
      refine (ih hs₃ hr₃ hrequested₃ hx hrest).append hone fun r' hr' => ?_
      rw [List.mem_singleton.1 hr']
      exact hbefore

/-! ## Between requests -/

theorem Effect.running_eq (h : s.Effect s') : s'.running = s.running ∧ s'.stopTimeArmed = s.stopTimeArmed := by
  cases h <;> exact ⟨rfl, rfl⟩

theorem running_of_armStopTime {x : Except SimError Bool × Simulator α} (h : s.armStopTime = .ok x) :
    x.2.running = s.running := by
  unfold armStopTime at h
  split at h
  · cases h
    rfl
  · dsimp only at h
    split at h
    · cases h
      rfl
    · split at h
      · cases h
        rfl
      · obtain ⟨y, hy, h⟩ := Outcome.bind_eq_ok_iff.1 h
        obtain ⟨delay, -, hy⟩ := Outcome.bind_eq_ok_iff.1 hy
        cases hy
        rcases scheduleIn_cases { s with stopTimeArmed := true } s.context delay .stop with ⟨e, he⟩ | ⟨_, -, he⟩
        · simp only [he] at h
          cases h
          rfl
        · simp only [he] at h
          cases h
          rfl

/-- A simulator that was not executing an action is not after it was driven. -/
theorem running_of_handler (d : Drive) {x : d.Answer α × Simulator α × ω} (h : handler meaning fuel d s w = .ok x)
    (hs : s.running = false) : x.2.1.running = false := by
  cases d with
  | run =>
    simp only [handler, run, hs, Bool.false_eq_true, if_false] at h
    obtain ⟨⟨e | passed, s₁⟩, ha, h⟩ := Outcome.bind_eq_ok_iff.1 h
    · cases h
      exact (running_of_armStopTime ha).trans hs
    · obtain ⟨⟨e | reason, s₂, w₂⟩, -, h⟩ := Outcome.bind_eq_ok_iff.1 h
      · cases h
        rfl
      · cases h
        rfl
  | step =>
    simp only [handler, step, hs, Bool.false_eq_true, if_false] at h
    obtain ⟨y, -, h⟩ := Outcome.bind_eq_ok_iff.1 h
    cases h
    rfl
  | destroy =>
    simp only [handler, destroy, hs, Bool.false_eq_true, if_false] at h
    obtain ⟨y, -, h⟩ := Outcome.bind_eq_ok_iff.1 h
    cases h
    rfl

theorem running_of_exec {p : Program α ω ρ} {x : Outcome α ω ρ} (h : p.exec (handler meaning fuel) s w = .ok x)
    (hs : s.running = false) : x.2.1.running = false :=
  Program.exec_keeps (fun _ _ _ _ hc hs => (effect_of_perform hc).running_eq.1.trans hs)
    (fun d _ _ _ h hs => running_of_handler d h hs) h hs

/-! ## The first run -/

section FirstRun

variable {time : Time}

/-- The simulator in whose state the first run executes events. -/
def started (s : Simulator α) (time : Time) : Simulator α :=
  { s.armed (s.config.resolution.quantize time) with running := true, stopRequested := false }

theorem Aligned.now_le_quantize (ha : s.Aligned) (hs : s.Sound) (hle : s.now ≤ time) :
    s.now.femtos ≤ (s.config.resolution.quantize time).femtos := by
  have hmono := s.config.resolution.quantize_mono hs.now_nonneg hle
  rwa [show (s.config.resolution.quantize s.now).femtos = s.now.femtos from Int.tdiv_mul_cancel ha.now] at hmono

/-- The first run schedules the stop event and then executes events. -/
theorem runMoments_of_first (meaning : Meaning α ω) (fuel : Nat) (w : ω) (hs : s.Sound) (ha : s.Aligned)
    (hrunning : s.running = false) (hfirst : s.stopTimeArmed = false) (ht : s.config.stopTime = some time)
    (hle : s.now ≤ time) :
    ∃ id, runMoments meaning fuel s w = ⟨.switched, { s with stopTimeArmed := true }⟩ ::
      ⟨.called (.stopAt time) (.ok id), s.armed (s.config.resolution.quantize time)⟩ ::
      ⟨.switched, s.started time⟩ :: loopMoments meaning fuel (s.started time) w := by
  obtain ⟨id, hid⟩ := armMoments_of_le hs ha hfirst ht hle
  refine ⟨id, ?_⟩
  simp only [runMoments, hrunning, Bool.false_eq_true, if_false, hid, armStopTime_of_le hs ha hfirst ht hle]
  rfl

/-- As long as the stop event is pending, no event begins that is due later. -/
theorem began_le_stopTime (hs : s.Sound) (ha : s.Aligned) (hrunning : s.running = false) (hfirst : s.stopTimeArmed = false)
    (ht : s.config.stopTime = some time) (hle : s.now ≤ time) {next : Except SimError Report → Program α ω σ}
    {pre post : List (Moment α)} {m : Moment α} {r : EventRecord (Action α)}
    (he : (Program.drive .run next).moments (handler meaning fuel) (within meaning fuel) s w = pre ++ m :: post)
    (hpre : ∀ n ∈ pre, ¬ n.deed.Ends s.nextUid) (hm : m.deed = .began r) :
    r.time ≤ s.config.resolution.quantize time := by
  obtain ⟨id, hid⟩ := runMoments_of_first meaning fuel w hs ha hrunning hfirst ht hle
  obtain ⟨t, hp, -⟩ := leads_moments (answers_within meaning fuel) (Program.drive .run next) s w
  simp only [Program.moments, within, hid, List.cons_append] at he hp
  cases hp with
  | cons h₀ hp =>
  cases hp with
  | cons h₁ hp =>
  -- The moments at which the stop event is scheduled are not the one at which an event begins.
  rcases pre with _ | ⟨n, _ | ⟨n', pre⟩⟩
  · cases he
    cases hm
  · cases he
    cases hm
  · obtain ⟨-, he⟩ := List.cons_eq_cons.1 he
    obtain ⟨-, he⟩ := List.cons_eq_cons.1 he
    have hq := ha.now_le_quantize hs hle
    have hbegan := hp.began_of_pending (hs.armed hq) (record?_armed hs _) he
      (fun k hk => hpre k (List.mem_cons_of_mem _ (List.mem_cons_of_mem _ hk))) hm
    rcases hbegan with rfl | hbefore
    · exact Int.le_refl _
    · change r.time.femtos ≤ _
      unfold EventRecord.before at hbefore
      change r.time.femtos < (s.config.resolution.quantize time).femtos ∨
        r.time.femtos = (s.config.resolution.quantize time).femtos ∧ _ at hbefore
      omega

/-- A first run that ended without an error has executed events until something ended it. -/
theorem runLoop_of_run (hs : s.Sound) (ha : s.Aligned) (hrunning : s.running = false) (hfirst : s.stopTimeArmed = false)
    (ht : s.config.stopTime = some time) (hle : s.now ≤ time) {report : Report}
    (hx : s.run meaning fuel w = .ok (.ok report, s', w')) :
    ∃ reason s₁, runLoop meaning fuel (s.started time) w = .ok (.ok reason, s₁, w') ∧
      s' = { s₁ with running := false, stopReason := some reason } ∧ report = s'.report := by
  simp only [run, hrunning, Bool.false_eq_true, if_false] at hx
  obtain ⟨y, hy, hx⟩ := Outcome.bind_eq_ok_iff.1 hx
  cases hy.symm.trans (armStopTime_of_le hs ha hfirst ht hle)
  obtain ⟨⟨e | reason, s₁, w₁⟩, hl, hx⟩ := Outcome.bind_eq_ok_iff.1 hx
  · cases hx
  · cases hx
    exact ⟨reason, s₁, hl, rfl, rfl⟩

theorem not_cleared_of_nextMoments {m : Moment α} (hm : m ∈ nextMoments meaning s w) : m.deed ≠ .cleared := by
  unfold nextMoments at hm
  split at hm
  · cases List.mem_singleton.1 hm
    rintro ⟨⟩
  · split at hm
    · rcases List.mem_cons.1 hm with rfl | hm
      · rintro ⟨⟩
      · exact (began?_of_actionMoments hm).2
    · cases hm

/-- Runs forget no events. -/
theorem not_cleared_of_runMoments {m : Moment α} (hm : m ∈ runMoments meaning fuel s w) : m.deed ≠ .cleared := by
  unfold runMoments at hm
  split at hm
  · cases hm
  · rcases List.mem_append.1 hm with hm | hm
    · rcases deed_of_armMoments hm with ⟨time, answer, hd⟩ | hd
      · rw [hd]
        rintro ⟨⟩
      · rw [hd]
        rintro ⟨⟩
    · split at hm
      · rcases List.mem_cons.1 hm with rfl | hm
        · rintro ⟨⟩
        · exact forall_loopMoments (I := fun _ => True) (fun _ _ _ _ => not_cleared_of_nextMoments)
            (fun _ _ _ _ _ => trivial) trivial _ hm
      · cases hm

/-- What a first run comes to that nothing but the stop event ends. -/
theorem Unaided.run (hs : s.Sound) (ha : s.Aligned) (hrunning : s.running = false) (hfirst : s.stopTimeArmed = false)
    (ht : s.config.stopTime = some time) (hle : s.now ≤ time) {report : Report}
    (hx : s.run meaning fuel w = .ok (.ok report, s', w')) (hlimit : report.stopReason ≠ some .eventLimit)
    (h : Unaided (s.stopEvent (s.config.resolution.quantize time)) (runMoments meaning fuel s w)) :
    report = s'.report ∧ (∃ reason, s'.stopReason = some reason ∧
      EndsAt (s.stopEvent (s.config.resolution.quantize time)) (runMoments meaning fuel s w) reason s') ∧
      ∀ m ∈ runMoments meaning fuel s w, m.deed ≠ .cleared := by
  obtain ⟨id, hid⟩ := runMoments_of_first meaning fuel w hs ha hrunning hfirst ht hle
  obtain ⟨reason, s₁, hl, rfl, rfl⟩ := runLoop_of_run hs ha hrunning hfirst ht hle hx
  refine ⟨rfl, ⟨reason, rfl, ?_⟩, fun m => not_cleared_of_runMoments⟩
  rw [hid] at h ⊢
  have hstarted : (s.started time).Sound := { hs.armed (ha.now_le_quantize hs hle) with }
  have h : Unaided _ ([_, _, _] ++ loopMoments meaning fuel (s.started time) w) := h
  have hrest := (h.of_append (by simp [Deed.spares, Deed.began?])).1
  have hends := hrest.runLoop hstarted (record?_armed hs _) rfl rfl hl fun he => hlimit (congrArg some he)
  exact ⟨hends.reason, hends.now, hends.executed, hends.left⟩

/-- A run whose stop time is past ends at once. -/
theorem run_of_past (meaning : Meaning α ω) (fuel : Nat) (w : ω) (hrunning : s.running = false)
    (hfirst : s.stopTimeArmed = false) (ht : s.config.stopTime = some time) (hlt : time < s.now) :
    s.run meaning (fuel + 1) w =
        .ok (.ok { s with stopReason := some .stopped }.report,
          { s with stopRequested := true, stopTimeArmed := true, stopReason := some .stopped }, w) ∧
      executed (runMoments meaning (fuel + 1) s w) = [] := by
  have harm : s.armStopTime = .ok (.ok true, { s with stopTimeArmed := true }) := by
    simp only [armStopTime, hfirst, Bool.false_eq_true, if_false, ht, hlt, if_true]
  constructor
  · simp only [run, hrunning, Bool.false_eq_true, if_false, harm, bind, Except.bind, runLoop, if_true, pure, Except.pure]
    rfl
  · simp only [runMoments, hrunning, Bool.false_eq_true, if_false, executed_append, executed_arm, harm, List.nil_append,
      loopMoments, true_or, if_true]
    rfl

/-- **The stop time.** Let a driver reach the simulator `s` without having run it, and let it have a stop time; `stop` is the
event at its whole ticks that has the next number. If the stop time is not past, no event due later than `stop` begins from
this first run on, whatever the driver does then, until `stop` begins, is cancelled, or is forgotten in a teardown. If that
run ends without an error and not by the limit of events, and nobody cancels `stop` or asks for an end before it begins,
then it has stopped at the time of `stop`, and has executed, and then `stop`, exactly the events that come before `stop`
and were pending at some moment and not cancelled, among them all that were due by then when it began; all that are left come
after `stop`. If the stop time is past, the first run executes nothing and stops. -/
theorem stops_at_stopTime {owner : Nat} {config : Config} {p : Program α ω ρ} {w₀ : ω} {res : Except SimError ρ}
    (hp : p.exec (handler meaning fuel) (ofConfig owner config) w₀ = .ok (res, s, w)) (hfirst : s.stopTimeArmed = false)
    (ht : config.stopTime = some time) :
    let q := config.resolution.quantize time
    let stop := s.stopEvent q
    let ms := within meaning fuel .run s w
    (s.now ≤ time →
      (∀ (next : Except SimError Report → Program α ω σ) pre m post r,
        (Program.drive .run next).moments (handler meaning fuel) (within meaning fuel) s w = pre ++ m :: post →
        (∀ n ∈ pre, ¬ n.deed.Ends stop.uid) → m.deed = .began r → r.time ≤ q) ∧
      ∀ report s' w', s.run meaning fuel w = .ok (.ok report, s', w') → report.stopReason ≠ some .eventLimit →
        Unaided stop ms →
        report.stopReason = some .stopped ∧ report.finalTime = q ∧
        (∃ es, executed ms = es ++ [stop] ∧ ∀ r ∈ es, r.before stop) ∧
        (∀ r, (s.Pends r ∨ ∃ m ∈ ms, m.state.Pends r) → r.before stop →
          r ∈ executed ms ∨ ∃ m ∈ ms, m.deed.Cancels r.uid) ∧
        (∀ r, s.Pends r → r.time ≤ q → r ∈ executed ms ∨ ∃ m ∈ ms, m.deed.Cancels r.uid) ∧
        ∀ r, s'.Pends r → stop.before r) ∧
    (time < s.now → 0 < fuel →
      (∃ report, s.run meaning fuel w = .ok (.ok report,
          { s with stopRequested := true, stopTimeArmed := true, stopReason := some .stopped }, w) ∧
        report.stopReason = some .stopped ∧ report.finalTime = s.now) ∧
      executed ms = []) := by
  intro q stop ms
  obtain ⟨hs, ha, rfl⟩ : s.Sound ∧ s.Aligned ∧ s.config = config := kept_of_exec hp
  have hrunning : s.running = false := running_of_exec hp rfl
  refine ⟨fun hle => ⟨fun next pre m post r he hpre hm => ?_, ?_⟩, ?_⟩
  · exact began_le_stopTime hs ha hrunning hfirst ht hle he hpre hm
  · intro report s' w' hx hlimit hunaided
    obtain ⟨rfl, ⟨reason, hreason, hends⟩, hcleared⟩ := hunaided.run hs ha hrunning hfirst ht hle hx hlimit
    obtain ⟨t, hpath, hlast⟩ := answers_within meaning fuel .run s w
    -- What is pending when the run has ended comes after the stop event, and a run forgets nothing.
    have hfate : ∀ r, (s.Pends r ∨ ∃ m ∈ ms, m.state.Pends r) → r.before stop →
        r ∈ executed ms ∨ ∃ m ∈ ms, m.deed.Cancels r.uid := by
      intro r hr hbefore
      rcases hpath.fate_of_pends hs hr with hr | hex | hc | ⟨m, hm, hc⟩
      · have hr' : s'.Pends r := by
          cases hlast _ hx
          exact hr
        exact absurd hbefore (EventRecord.before_asymm (hends.left r hr'))
      · exact .inl hex
      · exact .inr hc
      · exact absurd hc (hcleared m hm)
    refine ⟨hreason.trans (congrArg some hends.reason), hends.now, hends.executed, hfate, ?_, hends.left⟩
    intro r hr hle'
    refine hfate r (.inl hr) ?_
    obtain ⟨slot, hr⟩ := hr
    have hlt := hs.uid_lt hr
    have hle' : r.time.femtos ≤ q.femtos := hle'
    change r.time.femtos < q.femtos ∨ r.time.femtos = q.femtos ∧ r.uid < s.nextUid
    omega
  · intro hlt hfuel
    obtain ⟨n, rfl⟩ : ∃ n, fuel = n + 1 := ⟨fuel - 1, by omega⟩
    obtain ⟨hrun, hexecuted⟩ := run_of_past meaning n w hrunning hfirst ht hlt
    exact ⟨⟨_, hrun, rfl, rfl⟩, hexecuted⟩

end FirstRun

/-- Ten and a half nanoseconds, which is ten whole ticks. -/
def tenAndHalf : Time := ⟨10_500_000, by decide, by decide⟩

/-- The first action fails, and the others do nothing. -/
def firstFails : Meaning Nat Unit
  | 0 => .fail (.invalidState "failed")
  | _ => .done ()

/-- Events one tick before the stop time, on its tick, and after it. -/
def aroundTen : Program Nat Unit Unit := do
  let _ ← Program.request (.schedule ⟨1_000_000, by decide, by decide⟩ 1)
  let _ ← Program.request (.schedule ⟨10_000_000, by decide, by decide⟩ 1)
  let _ ← Program.request (.schedule ⟨20_000_000, by decide, by decide⟩ 1)

/-- The simulator that is about to execute them. -/
def dueAroundTen : Simulator Nat :=
  match aroundTen.exec (handler firstFails 5) (ofConfig 0 { stopTime := some tenAndHalf }) () with
  | .ok (_, s, _) => s
  | .error _ => default

theorem stops_at_stopTime_aroundTen :
    let ten : Time := ⟨10_000_000, by decide, by decide⟩
    ∃ report s', dueAroundTen.run firstFails 5 () = .ok (.ok report, s', ()) ∧
      report.stopReason = some .stopped ∧ report.finalTime = ten ∧
      ∀ r, s'.Pends r → (dueAroundTen.stopEvent ten).before r := by
  have hs : aroundTen.exec (handler firstFails 5) (ofConfig 0 { stopTime := some tenAndHalf }) () =
      .ok (.ok (), dueAroundTen, ()) := rfl
  have hunaided : Unaided (dueAroundTen.stopEvent ⟨10_000_000, by decide, by decide⟩)
      (within firstFails 5 .run dueAroundTen ()) := ⟨by decide +kernel, by decide +kernel⟩
  have hrun : ((dueAroundTen.run firstFails 5 ()).toOption.bind fun x => x.1.toOption.map Report.stopReason) =
      some (some .stopped) := by decide +kernel
  cases hx : dueAroundTen.run firstFails 5 () with
  | error f =>
    rw [hx] at hrun
    cases hrun
  | ok x =>
    rw [hx] at hrun
    obtain ⟨e | report, s', ⟨⟩⟩ := x
    · cases hrun
    · obtain ⟨-, hend⟩ := (stops_at_stopTime (σ := Unit) hs rfl rfl).1 (by decide)
      have hstopped : report.stopReason = some .stopped := Option.some.inj hrun
      have hlimit : report.stopReason ≠ some .eventLimit := by
        rw [hstopped]
        decide
      obtain ⟨hreason, hfinal, -, -, -, hleft⟩ := hend report s' () hx hlimit hunaided
      exact ⟨report, s', rfl, hreason, hfinal, hleft⟩

/-- The action of an event fails. -/
def failing : Program Nat Unit Unit := do
  let _ ← Program.request (.schedule ⟨1_000_000, by decide, by decide⟩ 0)

/-- Tears down, and runs an event that is scheduled after that. -/
def goOn : Program Nat Unit Unit := do
  let _ ← Program.requestDrive .destroy
  let _ ← Program.request (.schedule ⟨20_000_000, by decide, by decide⟩ 1)
  let _ ← Program.requestDrive .run

/-- After a teardown runs go beyond the stop time, though the event that stops them never began. -/
theorem executed_after_teardown :
    let config : Config := { stopTime := some tenAndHalf }
    config.validate = .ok () ∧
    ∃ s, failing.exec (handler firstFails 3) (ofConfig 0 config) () = .ok (.ok (), s, ()) ∧
      s.stopTimeArmed = false ∧ s.now ≤ tenAndHalf ∧
      let es := executed ((Program.drive .run fun _ => goOn).moments (handler firstFails 3) (within firstFails 3) s ())
      (∃ r ∈ es, config.resolution.quantize tenAndHalf < r.time) ∧ ∀ r ∈ es, r.action ≠ .stop := by
  refine ⟨rfl, _, rfl, rfl, ?_, ?_, ?_⟩
  · decide +kernel
  · decide +kernel
  · decide +kernel

end Simulator

end SimKernel
