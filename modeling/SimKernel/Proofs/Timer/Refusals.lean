import SimKernel.Proofs.Timer.Safety

/-!
# Requests that are refused

What is left of a timer when it refuses a request. A refusal comes from one of two places (`refused_cases`). The timer itself
refuses before it touches anything: it has no callback, or it is not in the state that the request asks for. Its simulator
refuses a delay that is negative or reaches past every time (`Simulator.Declines`), but then what was armed before is already
cancelled and what was left of a suspended timer forgotten, so such a request is not refused without a trace unless the timer
was expired (`unchanged_of_refused`, `exists_expiration_lost`).

Nothing is assumed about the timer or its simulator, except that the request was answered.
-/

namespace SimKernel

variable {α : Type}

/-- The simulator refuses to schedule an event after the delay: it is negative, or its whole ticks reach past every time. -/
def Simulator.Declines (s : Simulator α) (delay : Time) : Prop :=
  delay.femtos < 0 ∨ Time.greatest < s.now.femtos + s.config.resolution.wholeTicks delay.femtos

theorem Simulator.exists_error_iff {s : Simulator α} {context : ContextId} {delay : Time} {action : Action α} :
    (∃ e, s.scheduleIn context delay action = .error e) ↔ s.Declines delay := by
  have hleast := s.now.min_le
  unfold Declines
  cases hneg : delay.isNegative with
  | true =>
    simp only [scheduleIn, hneg, if_true]
    exact ⟨fun _ => .inl (by simpa [Time.isNegative] using hneg), fun _ => ⟨_, rfl⟩⟩
  | false =>
    have hdelay := Time.isNegative_eq_false_iff.1 hneg
    have hq := s.config.resolution.quantize_nonneg hdelay
    have hticks : (s.config.resolution.quantize delay).femtos = s.config.resolution.wholeTicks delay.femtos := rfl
    cases ht : s.now.checkedAdd (s.config.resolution.quantize delay) with
    | none =>
      simp only [scheduleIn, hneg, Bool.false_eq_true, if_false, ht]
      refine ⟨fun _ => .inr (Int.not_le.1 fun hle => ?_), fun _ => ⟨_, rfl⟩⟩
      exact absurd ((dif_pos ⟨by omega, Int.lt_add_one_of_le hle⟩).symm.trans ht) (Option.some_ne_none _)
    | some time =>
      simp only [scheduleIn, hneg, Bool.false_eq_true, if_false, ht]
      have hle : time.femtos ≤ Time.greatest := Int.le_of_lt_add_one time.lt_bound
      have ht := Time.ofFemtos?_eq_some_iff.1 ht
      exact ⟨(by rintro ⟨_, ⟨⟩⟩), fun h => by omega⟩

namespace Timer

open Program

namespace System

/-- The timer waits for the event with the name. -/
def Expects (x : System α) (id : EventId) : Prop := x.timer.event = some id ∧ x.sim.isPending id = .ok true

/-- The timer could be armed, but its simulator declines the delay that the request is about. -/
def Overreaches (x : System α) (q : Request α) : Prop :=
  x.timer.callback.isSome ∧ ∃ delay, q.delay? x.timer = some delay ∧ x.sim.Declines delay

/-- Nothing can be told of the timer and its simulator that was otherwise before. -/
structure Same (x y : System α) : Prop where
  sim : y.sim = x.sim
  state : ∀ st, y.Shows st ↔ x.Shows st
  delayLeft : ∀ d, y.ShowsLeft d ↔ x.ShowsLeft d
  expiration : ∀ id, y.Expects id ↔ x.Expects id

/-! ## Expired timers -/

section Expired

variable {x : System α}

theorem ShowsLeft.eq {d d' : Time} (h : x.ShowsLeft d) (h' : x.ShowsLeft d') : d = d' := by
  cases (h Handler.refuse ()).symm.trans (h' Handler.refuse ())
  rfl

/-- A timer shows to be expired if it keeps neither a delay nor the name of an event that waits. -/
theorem shows_expired_iff :
    x.Shows .expired ↔ x.timer.remaining = none ∧ ∀ id, x.timer.event = some id → x.sim.isPending id = .ok false := by
  unfold Shows Timer.state
  cases x.timer.remaining with
  | some d =>
    constructor
    · intro h
      cases h Handler.refuse ()
    · rintro ⟨⟨⟩, -⟩
  | none =>
    cases x.timer.event with
    | none =>
      constructor
      · intro _
        exact ⟨rfl, by rintro id ⟨⟩⟩
      · intro _ _ _ _
        rfl
    | some id =>
      simp only [exec_bind, query, exec, Query.answer, Option.some.injEq, forall_eq', true_and]
      cases x.sim.isPending id with
      | error f =>
        constructor
        · intro h
          cases h Handler.refuse ()
        · rintro ⟨⟩
      | ok waits =>
        cases waits with
        | true =>
          constructor
          · intro h
            cases h Handler.refuse ()
          · rintro ⟨⟩
        | false => exact ⟨fun _ => rfl, fun _ _ _ _ => rfl⟩

theorem showsLeft_of_expired (h : x.Shows .expired) : x.ShowsLeft Time.zero := by
  obtain ⟨hremaining, hevent⟩ := shows_expired_iff.1 h
  unfold ShowsLeft Timer.delayLeft
  intro ω handle w
  rw [hremaining]
  cases he : x.timer.event with
  | none => rfl
  | some id => simp only [query, exec, Query.answer, Simulator.delayLeft_of_isPending (hevent id he)]

/-- There is nothing to cancel. -/
theorem disarmed_of_expired (h : x.Shows .expired) : x.disarmed = x.sim := by
  unfold disarmed
  cases he : x.timer.event with
  | none => rfl
  | some id => exact withdraw_of_cancel (Simulator.cancel_of_isPending ((shows_expired_iff.1 h).2 id he))

theorem not_expects_of_expired (h : x.Shows .expired) (id : EventId) : ¬ x.Expects id := by
  rintro ⟨he, hpending⟩
  cases hpending.symm.trans ((shows_expired_iff.1 h).2 id he)

/-- Expired timers on the same simulator cannot be told apart. -/
theorem same_of_expired {y : System α} (hsim : y.sim = x.sim) (hx : x.Shows .expired) (hy : y.Shows .expired) :
    Same x y where
  sim := hsim
  state _ := ⟨fun h => Shows.eq hy h ▸ hx, fun h => Shows.eq hx h ▸ hy⟩
  delayLeft _ := ⟨fun h => ShowsLeft.eq (showsLeft_of_expired hy) h ▸ showsLeft_of_expired hx,
    fun h => ShowsLeft.eq (showsLeft_of_expired hx) h ▸ showsLeft_of_expired hy⟩
  expiration id := iff_of_false (not_expects_of_expired hy id) (not_expects_of_expired hx id)

end Expired

end System

/-! ## Refusals -/

section Refusals

variable {x : System α} {q : Request α} {ω : Type} {handle : Handler α ω} {w w' : ω} {t : Timer α} {s : Simulator α}
  {e : SimError}

/-- The timer cancels its event, if it can, and forgets what was left of a delay. -/
theorem exec_cancel_eq_ok (h : x.timer.cancel.exec handle x.sim w = .ok (.ok t, s, w')) :
    t = { x.timer with event := none, remaining := none } ∧ s = x.disarmed ∧ w' = w := by
  unfold Timer.cancel at h
  unfold System.disarmed
  cases he : x.timer.event with
  | none =>
    rw [he] at h
    cases h
    exact ⟨rfl, rfl, rfl⟩
  | some id =>
    rw [he] at h
    obtain ⟨answer, s₁, w₁, hcall, hdone⟩ := exec_bind_eq_ok h
    obtain ⟨hc, rfl⟩ := exec_request_eq_ok hcall
    cases hdone
    exact ⟨rfl, (withdraw_of_cancel hc).symm, rfl⟩

/-- The clock and the settings do not depend on the timer's event. -/
theorem declines_disarmed (x : System α) (delay : Time) : x.disarmed.Declines delay ↔ x.sim.Declines delay := by
  have hsame : x.disarmed.now = x.sim.now ∧ x.disarmed.config = x.sim.config := by
    unfold System.disarmed Simulator.withdraw
    cases x.timer.event with
    | none => exact ⟨rfl, rfl⟩
    | some id =>
      cases hc : x.sim.cancel id with
      | error f => exact ⟨by simp [hc, Except.toOption], by simp [hc, Except.toOption]⟩
      | ok y =>
        obtain ⟨answer, s'⟩ := y
        simp only [Option.bind_some, hc, Except.toOption, Option.elim_some]
        rcases Simulator.cancel_eq_ok hc with ⟨-, rfl, -⟩ | ⟨d, -, -, -, -, rfl⟩ | ⟨r, slots, -, -, -, rfl⟩
        all_goals exact ⟨rfl, rfl⟩
  unfold Simulator.Declines
  rw [hsame.1, hsame.2]

/-- Looking at a timer changes nothing. -/
theorem exec_state_eq_ok {st : TimerState} (h : x.timer.state.exec handle x.sim w = .ok (.ok st, s, w')) :
    s = x.sim ∧ w' = w := by
  unfold Timer.state at h
  cases hremaining : x.timer.remaining with
  | some d => rw [hremaining] at h; cases h; exact ⟨rfl, rfl⟩
  | none =>
    cases hevent : x.timer.event with
    | none => rw [hremaining, hevent] at h; cases h; exact ⟨rfl, rfl⟩
    | some id =>
      rw [hremaining, hevent] at h
      obtain ⟨waits, s₁, w₁, hquery, hdone⟩ := exec_bind_eq_ok h
      obtain ⟨a, -, hask⟩ := exec_ask_eq_ok hquery
      cases hask
      cases hdone
      exact ⟨rfl, rfl⟩

/-- Only the look at the state comes before a refusal to suspend. -/
theorem suspend_refused (h : x.timer.suspend.exec handle x.sim w = .ok (.ok (.error e, t), s, w')) :
    w' = w ∧ t = x.timer ∧ s = x.sim := by
  obtain ⟨st, s₁, w₁, hstate, hrest⟩ := exec_bind_eq_ok h
  obtain ⟨rfl, rfl⟩ := exec_state_eq_ok hstate
  split at hrest
  case isTrue =>
    obtain ⟨left, s₂, w₂, -, hrest⟩ := exec_bind_eq_ok hrest
    obtain ⟨t', s₃, w₃, -, hdone⟩ := exec_bind_eq_ok hrest
    cases hdone
  case isFalse => cases hrest; exact ⟨rfl, rfl, rfl⟩

/-- Arming is refused before anything was done, for want of a callback, or after the old event was cancelled. -/
theorem armAfter_refused {delay : Time}
    (h : (x.timer.armAfter delay).exec handle x.sim w = .ok (.ok (.error e, t), s, w')) :
    w' = w ∧ (x.timer.callback = none ∧ t = x.timer ∧ s = x.sim ∨
      x.timer.callback.isSome ∧ x.sim.Declines delay ∧ t = { x.timer with event := none, remaining := none } ∧
        s = x.disarmed) := by
  unfold armAfter at h
  cases ha : x.timer.callback with
  | none => rw [ha] at h; cases h; exact ⟨rfl, .inl ⟨rfl, rfl, rfl⟩⟩
  | some a =>
    rw [ha] at h
    obtain ⟨t₁, s₁, w₁, hcancel, hrest⟩ := exec_bind_eq_ok h
    obtain ⟨rfl, rfl, rfl⟩ := exec_cancel_eq_ok hcancel
    obtain ⟨answer, s₂, w₂, hcall, hdone⟩ := exec_bind_eq_ok hrest
    obtain ⟨hschedule, rfl⟩ := exec_request_eq_ok hcall
    have hkeep : Call.keep x.disarmed (x.disarmed.scheduleIn x.disarmed.context delay (.perform a)) = (answer, s₂) :=
      Except.ok.inj hschedule
    cases hs : x.disarmed.scheduleIn x.disarmed.context delay (.perform a) with
    | ok y => rw [hs] at hkeep; cases hkeep; cases hdone
    | error e' =>
      rw [hs] at hkeep
      cases hkeep
      cases hdone
      exact ⟨rfl, .inr ⟨rfl, (declines_disarmed x delay).1 (Simulator.exists_error_iff.1 ⟨_, hs⟩), rfl, rfl⟩⟩

/-- A request that is refused did nothing, or it has cancelled the timer's event and its simulator declined the delay. -/
theorem refused_cases (h : (q.program x.timer).exec handle x.sim w = .ok (.ok (.error e, t), s, w')) :
    w' = w ∧ (¬ x.Overreaches q ∧ t = x.timer ∧ s = x.sim ∨
      x.Overreaches q ∧ t = { x.timer with event := none, remaining := none } ∧ s = x.disarmed) := by
  have arming {delay : Time} (hq : q.delay? x.timer = some delay)
      (h : (x.timer.armAfter delay).exec handle x.sim w = .ok (.ok (.error e, t), s, w')) :
      w' = w ∧ (¬ x.Overreaches q ∧ t = x.timer ∧ s = x.sim ∨
        x.Overreaches q ∧ t = { x.timer with event := none, remaining := none } ∧ s = x.disarmed) := by
    obtain ⟨hw, ⟨hnone, hsame⟩ | ⟨hsome, hdeclines, hlost⟩⟩ := armAfter_refused h
    · exact ⟨hw, .inl ⟨fun hover => by simpa [hnone] using hover.1, hsame⟩⟩
    · exact ⟨hw, .inr ⟨⟨hsome, delay, hq, hdeclines⟩, hlost⟩⟩
  have untouched (hq : q.delay? x.timer = none) : ¬ x.Overreaches q := by
    rintro ⟨-, delay, hdelay, -⟩
    cases hq.symm.trans hdelay
  cases q with
  | setFunction | setDelay => cases h
  | arm => exact arming rfl h
  | armAfter delay => exact arming rfl h
  | cancel =>
    obtain ⟨t', s₁, w₁, -, hdone⟩ := exec_bind_eq_ok h
    cases hdone
  | suspend =>
    obtain ⟨hw, hsame⟩ := suspend_refused h
    exact ⟨hw, .inl ⟨untouched rfl, hsame⟩⟩
  | resume =>
    cases hremaining : x.timer.remaining with
    | some remaining =>
      refine arming hremaining ?_
      simpa only [Request.program, resume, hremaining] using h
    | none =>
      simp only [Request.program, resume, hremaining] at h
      cases h
      exact ⟨rfl, .inl ⟨untouched hremaining, rfl, rfl⟩⟩

/-- A timer that keeps no name and no delay is expired. -/
theorem shows_forgotten (t : Timer α) (s : Simulator α) :
    System.Shows ⟨s, { t with event := none, remaining := none }⟩ .expired :=
  System.shows_expired_iff.2 ⟨rfl, fun _ he => by cases he⟩

/-- **What is left after a refusal.** Whatever the state of a timer and its simulator, a request to the timer that is refused
leaves the timer and the simulator exactly as they were, unless the simulator declined the delay. In that case the event that
the timer was waiting for is cancelled, what was left of its delay is forgotten, and the timer is expired. So the state of the
timer, the time that is left, the expiration that it waits for, and the simulator with its pending events are what they were
before unless the simulator declined the delay of a timer that was running or suspended. -/
theorem unchanged_of_refused (h : (q.program x.timer).exec handle x.sim w = .ok (.ok (.error e, t), s, w')) :
    w' = w ∧ (¬ x.Overreaches q → t = x.timer ∧ s = x.sim) ∧
    (x.Overreaches q → t = { x.timer with event := none, remaining := none } ∧ s = x.disarmed ∧
      System.Shows ⟨s, t⟩ .expired ∧ System.ShowsLeft ⟨s, t⟩ Time.zero) ∧
    (x.Same ⟨s, t⟩ ↔ (x.Overreaches q → x.Shows .expired)) := by
  obtain ⟨rfl, ⟨hover, rfl, rfl⟩ | ⟨hover, rfl, rfl⟩⟩ := refused_cases h
  · refine ⟨rfl, fun _ => ⟨rfl, rfl⟩, fun h => absurd h hover, fun _ h => absurd h hover, fun _ => ?_⟩
    exact ⟨rfl, fun _ => Iff.rfl, fun _ => Iff.rfl, fun _ => Iff.rfl⟩
  · have hexpired : System.Shows ⟨x.disarmed, { x.timer with event := none, remaining := none }⟩ .expired :=
      shows_forgotten x.timer x.disarmed
    refine ⟨rfl, fun h => absurd hover h, fun _ => ⟨rfl, rfl, hexpired, System.showsLeft_of_expired hexpired⟩, ?_, ?_⟩
    · exact fun hsame _ => (hsame.state .expired).1 hexpired
    · exact fun hx => System.same_of_expired (System.disarmed_of_expired (hx hover)) (hx hover) hexpired

end Refusals

/-! ## A timer that loses its expiration -/

/-- The reason for which the request is refused, and the system after it. -/
def refuse? (q : Request Nat) (x : System Nat) : Option (SimError × System Nat) :=
  match (q.program x.timer).exec Handler.refuse x.sim () with
  | .ok (.ok (.error e, t), s, _) => some (e, ⟨s, t⟩)
  | _ => none

theorem exec_of_refuse? {q : Request Nat} {x y : System Nat} {e : SimError} (h : refuse? q x = some (e, y)) :
    (q.program x.timer).exec Handler.refuse x.sim () = .ok (.ok (.error e, y.timer), y.sim, ()) := by
  unfold refuse? at h
  split at h
  case h_1 e' t s w he => cases h; exact he
  case h_2 => cases h

/-- A new timer that was armed for ten nanoseconds. It is refused to be resumed, and refused to be armed for less than no
time. -/
theorem exists_refused : ∃ (x y z : System Nat) (e : SimError) (ms : List (Moment Nat)),
    Path ⟨Simulator.ofConfig 0 {}, {}⟩ ms x ∧ x.Shows .running ∧ x.ShowsLeft ⟨10_000_000, by decide, by decide⟩ ∧
      x.timer.callback = some 7 ∧ x.timer.remaining = none ∧ x.sim.pending = 1 ∧ refuse? .resume x = some (e, y) ∧
      refuse? (.armAfter ⟨-1_000_000, by decide, by decide⟩) x =
        some (.negativeDelay ⟨-1_000_000, by decide, by decide⟩, z) ∧
      z.sim.pending = 0 := by
  have hrun : ((ask? (.setFunction 7) ⟨Simulator.ofConfig 0 {}, {}⟩).bind fun a =>
      (ask? (.armAfter ⟨10_000_000, by decide, by decide⟩) a).bind fun x =>
        (refuse? .resume x).bind fun _ => (refuse? (.armAfter ⟨-1_000_000, by decide, by decide⟩) x).map fun z =>
          (decide ([a.sim.pending, x.sim.pending, z.2.sim.pending] = [0, 1, 0] ∧
              z.1 = .negativeDelay ⟨-1_000_000, by decide, by decide⟩), x.state, x.timer.callback, x.timer.remaining,
            (x.timer.delayLeft.exec Handler.refuse x.sim ()).toOption.bind fun d => d.1.toOption)) =
      some (true, .running, some 7, none, some ⟨10_000_000, by decide, by decide⟩) := by
    decide +kernel
  obtain ⟨a, ha, hrun⟩ := Option.bind_eq_some_iff.1 hrun
  obtain ⟨x, hx, hrun⟩ := Option.bind_eq_some_iff.1 hrun
  obtain ⟨⟨e, y⟩, hy, hrun⟩ := Option.bind_eq_some_iff.1 hrun
  obtain ⟨⟨e', z⟩, hz, hrun⟩ := Option.map_eq_some_iff.1 hrun
  simp only [Prod.mk.injEq, decide_eq_true_eq, List.cons.injEq, and_true] at hrun
  obtain ⟨⟨⟨hpendinga, hpendingx, hpendingz⟩, rfl⟩, hstate, hcallback, hremaining, hleft⟩ := hrun
  have hp : Path ⟨Simulator.ofConfig 0 {}, {}⟩ [⟨.requested (.setFunction 7) (.ok ()), a⟩,
      ⟨.requested (.armAfter ⟨10_000_000, by decide, by decide⟩) (.ok ()), x⟩] x :=
    .cons (step_of_ask? ha) (.cons (step_of_ask? hx) (.nil x))
  have hkept := (kept_ofConfig 0 {} Time.zero).path hp (by simp [hpendinga, hpendingx, Simulator.destroySlot])
  obtain ⟨d, hd⟩ := hkept.named.exists_delayLeft hkept.sound
  rw [hd Handler.refuse ()] at hleft
  cases hleft
  exact ⟨x, y, z, e, _, hp, hstate ▸ hkept.named.shows, hd, hcallback, hremaining, hpendingx, hy, hz, hpendingz⟩

/-- A running timer is refused to be resumed and goes on as before; it is refused to be armed for less than no time and does
not. -/
theorem unchanged_of_refused_runningTimer : ∃ (x y z : System Nat) (e e' : SimError),
    x.Shows .running ∧
    (Request.program .resume x.timer).exec Handler.refuse x.sim () = .ok (.ok (.error e, y.timer), y.sim, ()) ∧
      x.Same y ∧
    (Request.program (.armAfter ⟨-1_000_000, by decide, by decide⟩) x.timer).exec Handler.refuse x.sim () =
        .ok (.ok (.error e', z.timer), z.sim, ()) ∧
      z.Shows .expired ∧ ¬ x.Same z := by
  obtain ⟨x, y, z, e, ms, -, hrunning, -, hcallback, hremaining, -, hy, hz, -⟩ := exists_refused
  have hresume : ¬ x.Overreaches .resume := by
    rintro ⟨-, delay, hdelay, -⟩
    cases hremaining.symm.trans hdelay
  have harm : x.Overreaches (.armAfter ⟨-1_000_000, by decide, by decide⟩) :=
    ⟨by rw [hcallback]; rfl, _, rfl, .inl (by decide)⟩
  obtain ⟨-, -, -, hsame⟩ := unchanged_of_refused (exec_of_refuse? hy)
  obtain ⟨-, -, hlost, hother⟩ := unchanged_of_refused (exec_of_refuse? hz)
  exact ⟨x, y, z, e, _, hrunning, exec_of_refuse? hy, hsame.2 fun h => absurd h hresume, exec_of_refuse? hz,
    (hlost harm).2.2.1, fun h => nomatch System.Shows.eq hrunning (hother.1 h harm)⟩

/-- After a request to arm it for less than no time was refused, a timer that was running is expired: the event that it was
waiting for is not pending any more. -/
theorem exists_expiration_lost : ∃ (x z : System Nat) (ms : List (Moment Nat)),
    Path ⟨Simulator.ofConfig 0 {}, {}⟩ ms x ∧ x.Shows .running ∧ x.ShowsLeft ⟨10_000_000, by decide, by decide⟩ ∧
      x.sim.pending = 1 ∧
      (Request.program (.armAfter ⟨-1_000_000, by decide, by decide⟩) x.timer).exec Handler.refuse x.sim () =
        .ok (.ok (.error (.negativeDelay ⟨-1_000_000, by decide, by decide⟩), z.timer), z.sim, ()) ∧
      z.Shows .expired ∧ z.ShowsLeft Time.zero ∧ z.sim.pending = 0 := by
  obtain ⟨x, y, z, e, ms, hp, hrunning, hleft, hcallback, -, hpending, -, hz, hpending'⟩ := exists_refused
  obtain ⟨-, ⟨hother, -⟩ | ⟨-, hlost, -⟩⟩ := refused_cases (exec_of_refuse? hz)
  · exact absurd ⟨by rw [hcallback]; rfl, _, rfl, .inl (by decide)⟩ hother
  have hexpired : z.Shows .expired := System.shows_expired_iff.2 (by simp [hlost])
  exact ⟨x, z, ms, hp, hrunning, hleft, hpending, exec_of_refuse? hz, hexpired, System.showsLeft_of_expired hexpired,
    hpending'⟩

end Timer

end SimKernel
