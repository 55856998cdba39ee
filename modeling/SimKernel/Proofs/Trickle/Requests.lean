import SimKernel.Proofs.Outcome
import SimKernel.Proofs.Simulator.Execution
import SimKernel.Proofs.Time.Scaling
import SimKernel.Trickle.Basic

/-!
# What requests to a trickle timer do

Beginning a period either fails and changes nothing, or it schedules the end of the period and then a random point that is
no later (`startInterval_eq_ok`); the second request to schedule cannot be the one that fails. The random point is a
fraction of the period drawn from its second half, up to the roundings on the way (`Period`).

All this holds wherever a request is made, in an action or outside of actions, and whatever the generator draws.
-/

namespace SimKernel.Trickle

open Program

variable {α ω : Type}

/-- A simulator and a timer that runs on it. -/
structure System (α : Type) where
  sim : Simulator α
  timer : Trickle α

/-- The fraction is at least one half, and less than one. -/
def InSecondHalf (f : Binary64) : Prop :=
  ∃ q : ℚ, f.StandsFor q ∧ 1 / 2 ≤ q ∧ q ≤ 1 - 1 / 2 ^ 53

/-- The times of a period that begins now: its end, and its random point, which lies `delay` ahead; of both delays the
whole ticks count. -/
structure Period (x : System α) (delay ending point : Time) : Prop where
  length_nonneg : 0 ≤ x.timer.currentInterval.femtos
  drawn : ∃ f, InSecondHalf f ∧ delay = x.timer.currentInterval.scale f
  ending_eq : ending.femtos =
    x.sim.now.femtos + (x.sim.config.resolution.quantize x.timer.currentInterval).femtos
  point_eq : point.femtos = x.sim.now.femtos + (x.sim.config.resolution.quantize delay).femtos

/-- The simulator with the end of a period scheduled, and with the generator from which its random point was drawn. -/
def System.scheduleEnd (actions : Actions α) (x : System α) (ending : Time) (g : Rng) : Simulator α :=
  { (x.sim.insert ending x.sim.context (.perform actions.endInterval)).2 with rng := g }

/-- The system after a period was begun: its end and then its random point are scheduled, and nothing is counted yet. -/
def System.begin (actions : Actions α) (x : System α) (ending point : Time) (g : Rng) : System α :=
  let s := x.scheduleEnd actions ending g
  ⟨(s.insert point s.context (.perform actions.fire)).2,
    { x.timer with
      intervalEvent := some (x.sim.insert ending x.sim.context (.perform actions.endInterval)).1
      timerEvent := some (s.insert point s.context (.perform actions.fire)).1
      counter := 0 }⟩

/-- The event with the name is cancelled, if there is a name. -/
def Cancels (s : Simulator α) (id? : Option EventId) (s' : Simulator α) : Prop :=
  match id? with
  | some id => ∃ answer, s.cancel id = .ok (answer, s')
  | none => s' = s

/-- The timer without the names of events. -/
def forget (t : Trickle α) : Trickle α :=
  { t with timerEvent := none, intervalEvent := none }

/-! ## The random point -/

theorem standsFor_half : half.StandsFor (1 / 2) :=
  ⟨2 ^ 52, -53, by decide +kernel, by norm_num⟩

theorem standsFor_one : (Binary64.ofNat 1).StandsFor 1 :=
  ⟨2 ^ 52, -52, by decide +kernel, by norm_num⟩

/-- The width of the range of fractions is exact. -/
theorem standsFor_width : ((Binary64.ofNat 1).sub half).StandsFor (1 / 2) :=
  ⟨2 ^ 52, -53, by decide +kernel, by norm_num⟩

/-- What is drawn from one half up to one lies there. -/
theorem inSecondHalf_of_draw {f : Binary64} {g g' : Rng} (h : g.doubleRange half (Binary64.ofNat 1) = .ok (f, g')) :
    InSecondHalf f := by
  obtain ⟨⟨x, stream⟩, hd, he⟩ := Outcome.map_eq_ok_iff.1 h
  obtain rfl : x = f := congrArg Prod.fst he
  unfold Random.drawDouble at hd
  dsimp only at hd
  split at hd
  · cases hd
  split at hd
  · cases hd
  split at hd
  · cases hd
  split at hd
  · cases hd
  obtain ⟨q, hq, hle, hlt⟩ :=
    Binary64.standsFor_of_drawScaled standsFor_half standsFor_one standsFor_width (by norm_num) (by norm_num) hd
  exact ⟨q, hq, hle, hq.grid.le_of_lt_one hlt⟩

namespace Period

variable {x : System α} {delay ending point : Time}

/-- The random point lies in the period, and in its second half up to the roundings. -/
theorem bounds (h : Period x delay ending point) :
    0 ≤ delay.femtos ∧ delay.femtos ≤ x.timer.currentInterval.femtos ∧
      (2 ^ 53 - 1) * x.timer.currentInterval.femtos ≤ 2 ^ 54 * delay.femtos ∧
      (x.timer.currentInterval.femtos ≤ 2 ^ 53 → x.timer.currentInterval.femtos ≤ 2 * delay.femtos) := by
  obtain ⟨f, ⟨q, hf, hlow, hhigh⟩, rfl⟩ := h.drawn
  exact Time.scale_bounds h.length_nonneg hf hlow hhigh

/-- The period does not end before its random point. -/
theorem point_le (h : Period x delay ending point) : point.femtos ≤ ending.femtos := by
  rw [h.point_eq, h.ending_eq]
  have := x.sim.config.resolution.quantize_mono h.bounds.1 h.bounds.2.1
  omega

theorem now_le (h : Period x delay ending point) : x.sim.now.femtos ≤ point.femtos := by
  rw [h.point_eq]
  have := x.sim.config.resolution.quantize_nonneg h.bounds.1
  omega

theorem ending_le (h : Period x delay ending point) :
    ending.femtos ≤ x.sim.now.femtos + x.timer.currentInterval.femtos := by
  rw [h.ending_eq]
  have := x.sim.config.resolution.quantize_le h.length_nonneg
  omega

end Period

/-! ## Requests -/

variable {actions : Actions α} {t t' : Trickle α} {s s' : Simulator α} {handle : Handler α ω} {w w' : ω}
  {result : Except SimError Unit}

/-- A period that cannot begin leaves everything as it is. -/
theorem startInterval_eq_ok (hnow : 0 ≤ s.now.femtos)
    (h : (startInterval actions t).exec handle s w = .ok (.ok (result, t'), s', w')) :
    (∃ e, result = .error e) ∧ t' = t ∧ s' = s ∨
    result = .ok () ∧ ∃ delay ending point g, Period ⟨s, t⟩ delay ending point ∧
      (⟨s', t'⟩ : System α) = System.begin actions ⟨s, t⟩ ending point g := by
  obtain ⟨answer, s₁, w₁, he, hrest⟩ := exec_bind_eq_ok h
  rcases Simulator.schedule_eq_ok (exec_request_eq_ok he).1 with ⟨e, rfl, rfl⟩ | ⟨ending, hlength, hending, rfl, rfl⟩
  · obtain ⟨hr, rfl, -⟩ := exec_pure_eq_ok hrest
    obtain ⟨rfl, rfl⟩ := Prod.mk.inj hr
    exact .inl ⟨⟨e, rfl⟩, rfl, rfl⟩
  obtain ⟨f, s₂, w₂, hd, hrest⟩ := exec_bind_eq_ok hrest
  obtain ⟨g, hdraw, rfl, -⟩ := exec_random_eq_ok hd
  obtain ⟨answer, s₃, w₃, hp, hrest⟩ := exec_bind_eq_ok hrest
  have hf := inSecondHalf_of_draw hdraw
  rcases Simulator.schedule_eq_ok (exec_request_eq_ok hp).1 with ⟨e, rfl, -⟩ | ⟨point, -, hpoint, rfl, rfl⟩
  · -- The delay of the random point is not negative, and there was room for a longer one.
    obtain ⟨q, hq, hlow, hhigh⟩ := hf
    obtain ⟨hnonneg, hle, -⟩ := Time.scale_bounds hlength hq hlow hhigh
    have hroom : s.now.femtos + (s.config.resolution.quantize (t.currentInterval.scale f)).femtos ≤ ending.femtos := by
      rw [hending]
      exact Int.add_le_add_left (s.config.resolution.quantize_mono hnonneg hle) _
    exact absurd (exec_request_eq_ok hp).1
      (Simulator.schedule_of_le (s := System.scheduleEnd actions ⟨s, t⟩ ending g) hnonneg hnow hroom e)
  · obtain ⟨hr, rfl, -⟩ := exec_pure_eq_ok hrest
    obtain ⟨rfl, rfl⟩ := Prod.mk.inj hr
    exact .inr ⟨rfl, _, ending, point, g, ⟨hlength, ⟨f, hf, rfl⟩, hending, hpoint⟩, rfl⟩

/-- What follows after the event, if there is one, was cancelled. -/
theorem exec_cancels {ρ : Type} {id? : Option EventId} {next : Program α ω ρ} {r : ρ}
    (h : (match id? with
      | some id => do
        let _ ← request (.cancel id)
        next
      | _ => next : Program α ω ρ).exec handle s w = .ok (.ok r, s', w')) :
    ∃ s₁ w₁, Cancels s id? s₁ ∧ next.exec handle s₁ w₁ = .ok (.ok r, s', w') := by
  cases id? with
  | none => exact ⟨s, w, rfl, h⟩
  | some id =>
    obtain ⟨answer, s₁, w₁, hc, hrest⟩ := exec_bind_eq_ok h
    exact ⟨s₁, w₁, ⟨answer, (exec_request_eq_ok hc).1⟩, hrest⟩

/-- Both events are cancelled, as far as there are any, and forgotten. -/
theorem cancelEvents_eq_ok (h : (cancelEvents t).exec handle s w = .ok (.ok t', s', w')) :
    t' = t.forget ∧ ∃ s₁, Cancels s t.timerEvent s₁ ∧ Cancels s₁ t.intervalEvent s' := by
  unfold cancelEvents at h
  dsimp only at h
  obtain ⟨s₁, w₁, hfirst, h⟩ := exec_cancels h
  obtain ⟨s₂, w₂, hsecond, h⟩ := exec_cancels h
  obtain ⟨rfl, rfl, -⟩ := exec_pure_eq_ok h
  exact ⟨rfl, s₁, hfirst, hsecond⟩

theorem stop_eq_ok (h : (stop t).exec handle s w = .ok (.ok t', s', w')) :
    t' = { t.forget with currentInterval := t.minInterval, counter := 0 } ∧
      ∃ s₁, Cancels s t.timerEvent s₁ ∧ Cancels s₁ t.intervalEvent s' := by
  obtain ⟨t₁, s₁, w₁, hc, hrest⟩ := exec_bind_eq_ok h
  obtain ⟨rfl, hs⟩ := cancelEvents_eq_ok hc
  obtain ⟨rfl, rfl, -⟩ := exec_pure_eq_ok hrest
  exact ⟨rfl, hs⟩

/-- A reset cancels both events and starts an interval of the least length. -/
theorem reset_eq_ok (h : (reset actions t).exec handle s w = .ok (.ok (result, t'), s', w')) :
    ∃ s₁ s₂ w₂, Cancels s t.timerEvent s₁ ∧ Cancels s₁ t.intervalEvent s₂ ∧
      (startInterval actions { t.forget with currentInterval := t.minInterval }).exec handle s₂ w₂ =
        .ok (.ok (result, t'), s', w') := by
  obtain ⟨t₁, s₂, w₂, hc, hrest⟩ := exec_bind_eq_ok h
  obtain ⟨rfl, s₁, hfirst, hsecond⟩ := cancelEvents_eq_ok hc
  exact ⟨s₁, s₂, w₂, hfirst, hsecond, hrest⟩

/-- An interval of the least length goes on; a longer one is cut short by a reset. -/
theorem hearInconsistent_eq_ok (h : (hearInconsistent actions t).exec handle s w = .ok (.ok (result, t'), s', w')) :
    t.minInterval < t.currentInterval ∧ (reset actions t).exec handle s w = .ok (.ok (result, t'), s', w') ∨
    ¬ t.minInterval < t.currentInterval ∧ t' = t ∧ s' = s := by
  unfold hearInconsistent at h
  split at h
  case isTrue hlt => exact .inl ⟨hlt, h⟩
  case isFalse hle =>
    obtain ⟨hr, rfl, -⟩ := exec_pure_eq_ok h
    exact .inr ⟨hle, congrArg Prod.snd hr, rfl⟩

theorem setParameters_eq_ok {minInterval : Time} {doublings redundancy : Nat}
    (h : t.setParameters minInterval doublings redundancy = .ok t') :
    ∃ maxInterval : Time, t' = { t with minInterval, maxInterval, doublings, redundancy } := by
  obtain ⟨maxInterval, -, he⟩ := Outcome.bind_eq_ok_iff.1 h
  exact ⟨maxInterval, (Except.ok.inj he).symm⟩

/-- The end of an interval starts the next one, and cancels nothing. -/
theorem endInterval_eq_ok (h : (endInterval actions t).exec handle s w = .ok (.ok (result, t'), s', w')) :
    ∃ length : Time, (startInterval actions { t with currentInterval := length }).exec handle s w =
      .ok (.ok (result, t'), s', w') := by
  obtain ⟨doubled, s₁, w₁, hd, hrest⟩ := exec_bind_eq_ok h
  obtain ⟨-, rfl, rfl⟩ := exec_ofFaulty_eq_ok hd
  exact ⟨_, hrest⟩

/-- Enabling draws the length of the first period, and cancels nothing. -/
theorem enable_eq_ok (h : (enable actions t).exec handle s w = .ok (.ok (result, t'), s', w')) :
    ∃ (length : Time) (g : Rng) (w₁ : ω), (startInterval actions { t with currentInterval := length }).exec handle
      { s with rng := g } w₁ = .ok (.ok (result, t'), s', w') := by
  obtain ⟨factor, s₁, w₁, hd, hrest⟩ := exec_bind_eq_ok h
  suffices hs : ∃ g, s₁ = { s with rng := g } by
    obtain ⟨g, rfl⟩ := hs
    exact ⟨_, g, w₁, hrest⟩
  obtain ⟨whole, s₂, w₂, hwhole, hfactor⟩ := exec_bind_eq_ok hd
  obtain ⟨g, -, rfl, -⟩ := exec_random_eq_ok hwhole
  split at hfactor
  case isTrue =>
    obtain ⟨fraction, s₃, w₃, hunit, hsum⟩ := exec_bind_eq_ok hfactor
    obtain ⟨g', -, rfl, -⟩ := exec_random_eq_ok hunit
    obtain ⟨-, rfl, -⟩ := exec_pure_eq_ok hsum
    exact ⟨g', rfl⟩
  case isFalse =>
    obtain ⟨-, rfl, -⟩ := exec_pure_eq_ok hfactor
    exact ⟨g, rfl⟩

end SimKernel.Trickle
