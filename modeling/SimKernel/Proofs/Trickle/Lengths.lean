import SimKernel.Proofs.Trickle.Firing

/-!
# How long the periods of a trickle timer are

What a step does to the length of the period goes by the deed alone (`Deed.Yields`): it is drawn, doubled up to the
greatest length, set to the least one, or kept (`Step.yields`). From this follow the range of the length, as long as the
parameters stay as they are (`within_of_path`), and the length after a period to which the timer was left
(`length_of_leavesPeriod`).

The parameters may change within a period. The next one is then capped by the new greatest length, but it is not raised to
the new least one, and the length before is doubled first, which need not fit (`exec_endInterval_eq_overflow_iff`). A
length that is drawn is the product of the least one and a factor, computed with doubles. These products are exact enough
as long as the least length is a double itself (`drawn_of_enable`, `exists_length_outside_and_overflow`).
-/

namespace SimKernel

/-! ## Times that fit -/

namespace Time

theorem ofFemtos_eq_overflow_iff {n : Int} (h : least ≤ n) : ofFemtos n = .error .overflow ↔ greatest < n := by
  cases hn : ofFemtos? n with
  | some t =>
    have := ofFemtos?_eq_some_iff.1 hn
    have := t.lt_bound
    simp only [ofFemtos, hn, reduceCtorEq, false_iff, greatest]
    omega
  | none =>
    simp only [ofFemtos, hn, true_iff]
    by_contra hle
    have hfits : ofFemtos? n = some ⟨n, h, Int.lt_of_le_sub_one (not_lt.1 hle)⟩ := ofFemtos?_eq_some_iff.2 rfl
    rw [hn] at hfits
    cases hfits

end Time

namespace Trickle

open Program

variable {α ω : Type} {actions : Actions α}

/-! ## Parameters -/

/-- The parameters are ones that a timer accepts. -/
structure Accepted (t : Trickle α) : Prop where
  min_pos : 0 < t.minInterval.femtos
  doublings_lt : t.doublings < 63
  max_eq : t.maxInterval.femtos = t.minInterval.femtos * 2 ^ t.doublings

/-- The least interval is not zero, and is doubled fewer than 63 times. -/
theorem greatestInterval_eq_ok {minInterval maxInterval : Time} {doublings : Nat}
    (h : greatestInterval minInterval doublings = .ok maxInterval) :
    0 < minInterval.femtos ∧ doublings < 63 ∧ maxInterval.femtos = minInterval.femtos * 2 ^ doublings := by
  unfold greatestInterval at h
  split at h
  · cases h
  split at h
  · cases h
  case isFalse hpos =>
    split at h
    case h_1 t hmul =>
      cases h
      split at hmul
      case isTrue hlt =>
        refine ⟨by simpa [Time.isPositive] using hpos, hlt, ?_⟩
        rw [Time.checkedMul, Time.ofFemtos?_eq_some_iff] at hmul
        rw [hmul, Nat.one_shiftLeft]
        push_cast
        rfl
      case isFalse => cases hmul
    case h_2 => cases h

/-- Parameters that were not refused are such that a timer can have them. -/
theorem accepted_of_setParameters {t t' : Trickle α} {minInterval : Time} {doublings redundancy : Nat}
    (h : t.setParameters minInterval doublings redundancy = .ok t') : Accepted t' := by
  obtain ⟨maxInterval, hmax, he⟩ := Outcome.bind_eq_ok_iff.1 h
  cases he
  obtain ⟨hpos, hlt, heq⟩ := greatestInterval_eq_ok hmax
  exact ⟨hpos, hlt, heq⟩

/-- Doubling makes nothing smaller. -/
theorem Accepted.min_le_max {t : Trickle α} (h : Accepted t) : t.minInterval.femtos ≤ t.maxInterval.femtos := by
  rw [h.max_eq]
  exact le_mul_of_one_le_right h.min_pos.le (one_le_pow₀ one_le_two)

/-- The intervals and the number of doublings are the same. -/
structure SameParameters (t t' : Trickle α) : Prop where
  minInterval : t'.minInterval = t.minInterval
  maxInterval : t'.maxInterval = t.maxInterval
  doublings : t'.doublings = t.doublings

theorem SameParameters.refl (t : Trickle α) : SameParameters t t := ⟨rfl, rfl, rfl⟩

theorem SameParameters.trans {t t' u : Trickle α} (h : SameParameters t t') (h' : SameParameters t' u) :
    SameParameters t u :=
  ⟨h'.minInterval.trans h.minInterval, h'.maxInterval.trans h.maxInterval, h'.doublings.trans h.doublings⟩

theorem Accepted.of_same {t t' : Trickle α} (h : Accepted t) (hs : SameParameters t t') : Accepted t' :=
  ⟨hs.minInterval ▸ h.min_pos, hs.doublings ▸ h.doublings_lt,
    by rw [hs.minInterval, hs.maxInterval, hs.doublings, h.max_eq]⟩

/-! ## Beginning a period -/

theorem drawScaled_ne_overflow (low high width : Binary64) (fuel : Nat) (stream : Random.WordStream) :
    Random.drawScaled low high width fuel stream ≠ .error .overflow := by
  induction fuel generalizing stream with
  | zero => rintro ⟨⟩
  | succ fuel ih =>
    simp only [Random.drawScaled]
    split
    · rintro ⟨⟩
    · exact ih _

/-- Drawing a double needs no number that might not fit. -/
theorem doubleRange_ne_overflow {low high : Binary64} {g : Rng} : g.doubleRange low high ≠ .error .overflow := by
  intro h
  have hdraw : Random.drawDouble low high g.stream = .error .overflow := by
    cases hd : Random.drawDouble low high g.stream with
    | ok => rw [Rng.doubleRange, hd] at h; cases h
    | error => rw [Rng.doubleRange, hd] at h; cases h; rfl
  simp only [Random.drawDouble] at hdraw
  split at hdraw
  · cases hdraw
  split at hdraw
  · cases hdraw
  split at hdraw
  · cases hdraw
  split at hdraw
  · cases hdraw
  · exact drawScaled_ne_overflow _ _ _ _ _ hdraw

section Requests

variable {t t' u : Trickle α} {s s' : Simulator α} {handle : Handler α ω} {w w' : ω} {result : Except SimError Unit}

/-- Beginning a period leaves the parameters and the length as they are. -/
theorem startInterval_keeps (h : (startInterval actions u).exec handle s w = .ok (.ok (result, t'), s', w'))
    (hu : SameParameters t u) :
    SameParameters t t' ∧ t'.currentInterval = u.currentInterval := by
  obtain ⟨answer, s₁, w₁, -, hrest⟩ := exec_bind_eq_ok h
  cases answer with
  | error e =>
    obtain ⟨hr, -, -⟩ := exec_pure_eq_ok hrest
    cases hr
    exact ⟨hu, rfl⟩
  | ok ending =>
    obtain ⟨f, s₂, w₂, -, hrest⟩ := exec_bind_eq_ok hrest
    obtain ⟨answer, s₃, w₃, -, hrest⟩ := exec_bind_eq_ok hrest
    cases answer <;>
    · obtain ⟨hr, -, -⟩ := exec_pure_eq_ok hrest
      cases hr
      exact ⟨⟨hu.minInterval, hu.maxInterval, hu.doublings⟩, rfl⟩

theorem reset_keeps (h : (reset actions t).exec handle s w = .ok (.ok (result, t'), s', w')) :
    SameParameters t t' ∧ t'.currentInterval = t.minInterval := by
  obtain ⟨s₁, s₂, w₂, -, -, he⟩ := reset_eq_ok h
  exact startInterval_keeps (t := t) he ⟨rfl, rfl, rfl⟩

theorem exec_startInterval_ne_overflow (t : Trickle α) (handle : Handler α ω) (s : Simulator α) (w : ω) :
    (startInterval actions t).exec handle s w ≠ .error .overflow := by
  intro h
  rcases exec_bind_eq_error h with h | ⟨answer, s₁, w₁, -, h⟩
  · cases h
  cases answer with
  | error e => cases h
  | ok ending =>
    rcases exec_bind_eq_error h with h | ⟨f, s₂, w₂, -, h⟩
    · exact doubleRange_ne_overflow (exec_random_eq_error h)
    · rcases exec_bind_eq_error h with h | ⟨answer, s₃, w₃, -, h⟩
      · cases h
      · cases answer <;> cases h

/-! ### The first period -/

/-- A factor that is drawn lies between one and the power of two for the doublings. -/
theorem drawFactor_eq_ok {factor : Binary64} (hd : t.doublings < 63)
    (h : (drawFactor t).exec handle s w = .ok (.ok factor, s', w')) :
    ∃ q : ℚ, factor.StandsFor q ∧ 1 ≤ q ∧ q ≤ 2 ^ t.doublings := by
  have hticks : ((1 <<< t.doublings : Nat) : Int) = 2 ^ t.doublings := by
    rw [Nat.one_shiftLeft]
    push_cast
    rfl
  obtain ⟨whole, s₁, w₁, hwhole, hfactor⟩ := exec_bind_eq_ok h
  obtain ⟨g, hg, -, -⟩ := exec_random_eq_ok hwhole
  obtain ⟨⟨n, stream⟩, hn, he⟩ := Outcome.map_eq_ok_iff.1 hg
  obtain rfl : n = whole := congrArg Prod.fst he
  have hpow : (2 : Int) ^ t.doublings < 2 ^ 63 := pow_lt_pow_right₀ one_lt_two hd
  have hends : Random.IntKind.u64.Holds ((1 <<< t.doublings : Nat) + 1) := by
    have hsize : Random.IntKind.u64.size = 2 ^ 64 := rfl
    rw [Random.IntKind.holds_iff_of_not_signed rfl, hticks, hsize]
    exact ⟨by positivity, by push_cast; omega⟩
  obtain ⟨hlow, hhigh⟩ := Random.bounds_of_drawInt (by decide) hends hn
  rw [hticks] at hhigh hfactor
  split at hfactor
  case isTrue hlt =>
    obtain ⟨fraction, s₂, w₂, hunit, hsum⟩ := exec_bind_eq_ok hfactor
    obtain ⟨g', hg', -, -⟩ := exec_random_eq_ok hunit
    obtain ⟨rfl, -, -⟩ := exec_pure_eq_ok hsum
    obtain ⟨u, hu, hu1⟩ := Binary64.standsFor_of_drawUnit s₁.rng.stream
    obtain rfl : (Random.drawUnit s₁.rng.stream).1 = fraction := congrArg Prod.fst (Except.ok.inj hg')
    exact Binary64.exists_standsFor_whole_add hlow hlt (by omega) hu hu1
  case isFalse =>
    obtain ⟨rfl, -, -⟩ := exec_pure_eq_ok hfactor
    obtain ⟨q, -, hq, hq1, hqd⟩ := Binary64.exists_standsFor_whole hlow (by omega) (show t.doublings < 64 by omega)
    exact ⟨q, hq, hq1, hqd⟩

/-- A length that enabling draws: up to the precision of a double it lies between the least and the greatest one, and
exactly so if the least one is a double. -/
structure Drawn (t : Trickle α) (length : Time) : Prop where
  low : (2 ^ 53 - 1) * t.minInterval.femtos ≤ 2 ^ 53 * length.femtos
  high : 2 ^ 53 * length.femtos ≤ (2 ^ 53 + 1) * t.maxInterval.femtos
  exact : Binary64.Grid t.minInterval.femtos →
    t.minInterval.femtos ≤ length.femtos ∧ length.femtos ≤ t.maxInterval.femtos

/-- Enabling changes no parameter, and the length is the least one times the factor, rounded as doubles are. -/
theorem drawn_of_enable (ht : Accepted t) (h : (enable actions t).exec handle s w = .ok (.ok (result, t'), s', w')) :
    SameParameters t t' ∧ Drawn t t'.currentInterval := by
  obtain ⟨factor, s₁, w₁, hfactor, hrest⟩ := exec_bind_eq_ok h
  obtain ⟨q, hq, hlow, hhigh⟩ := drawFactor_eq_ok ht.doublings_lt hfactor
  obtain ⟨hsame, hlength⟩ := startInterval_keeps (t := t) hrest ⟨rfl, rfl, rfl⟩
  have hmax : t.minInterval.femtos * 2 ^ t.doublings ≤ Time.greatest := by
    rw [← ht.max_eq]
    exact Int.le_of_lt_add_one t.maxInterval.lt_bound
  obtain ⟨hle, hge, hexact⟩ := Time.scale_growth ht.min_pos hmax hq hlow hhigh
  rw [← ht.max_eq] at hge hexact
  rw [hlength]
  exact ⟨hsame, hle, hge, hexact⟩

/-! ### The next period -/

/-- The length of the period after the one of the timer. -/
structure Doubled (t : Trickle α) (length : Time) : Prop where
  fits : 2 * t.currentInterval.femtos ≤ Time.greatest
  eq_min : length.femtos = min (2 * t.currentInterval.femtos) t.maxInterval.femtos

/-- The end of an interval changes no parameter, and doubles the length unless that is too long. -/
theorem doubled_of_endInterval (h : (endInterval actions t).exec handle s w = .ok (.ok (result, t'), s', w')) :
    SameParameters t t' ∧ Doubled t t'.currentInterval := by
  obtain ⟨doubled, s₁, w₁, hd, hrest⟩ := exec_bind_eq_ok h
  obtain ⟨hdoubled, -, -⟩ := exec_ofFaulty_eq_ok hd
  obtain ⟨hsame, hlength⟩ := startInterval_keeps (t := t) hrest ⟨rfl, rfl, rfl⟩
  have hfemtos := Time.ofFemtos_eq_ok_iff.1 hdoubled
  have hfits := doubled.lt_bound
  refine ⟨hsame, by simp only [Time.greatest]; omega, ?_⟩
  rw [hlength]
  dsimp only
  split
  case isTrue hle =>
    rw [Time.le_def] at hle
    omega
  case isFalse hle =>
    rw [Time.le_def] at hle
    omega

/-- Ending a period fails for a time that does not fit just if twice its length does not fit. -/
theorem exec_endInterval_eq_overflow_iff (t : Trickle α) (handle : Handler α ω) (s : Simulator α) (w : ω)
    (h : 0 ≤ t.currentInterval.femtos) :
    (endInterval actions t).exec handle s w = .error .overflow ↔ Time.greatest < 2 * t.currentInterval.femtos := by
  have hfault : t.currentInterval.mul 2 = .error .overflow ↔ Time.greatest < 2 * t.currentInterval.femtos := by
    rw [Int.mul_comm]
    exact Time.ofFemtos_eq_overflow_iff (by simp only [Time.least]; omega)
  constructor
  · intro he
    rcases exec_bind_eq_error he with he | ⟨doubled, s₁, w₁, -, he⟩
    · exact hfault.1 (exec_ofFaulty_eq_error he)
    · exact absurd he (exec_startInterval_ne_overflow _ handle s₁ w₁)
  · intro hlt
    rw [endInterval, exec_bind, hfault.2 hlt]
    rfl

end Requests

/-! ## Steps -/

section Steps

variable {x y z : System α} {m b : Moment α} {ms ns : List (Moment α)}

/-- The length of the period after the deed. -/
def Deed.Yields (t : Trickle α) (length : Time) : Deed α → Prop
  | enabled _ => Drawn t length
  | ended _ => Doubled t length
  | reset _ | heardInconsistent true _ | stopped => length = t.minInterval
  | heardInconsistent false _ | heardConsistent | parametersSet | callbackSet | fired _ | other _ =>
    length = t.currentInterval

/-- The timer is left to its period: none is begun, and it is not stopped. -/
def Deed.LeavesPeriod (d : Deed α) : Prop := d.result? = none ∧ d ≠ .stopped

/-- If the deed draws a length, then from a least one that is a double. -/
def Deed.DrawsExactly (t : Trickle α) (d : Deed α) : Prop :=
  ∀ result, d = .enabled result → Binary64.Grid t.minInterval.femtos

theorem Deed.Yields.cases {t : Trickle α} {length : Time} {d : Deed α} (h : d.Yields t length) :
    (∃ result, d = .enabled result ∧ Drawn t length) ∨ (∃ result, d = .ended result ∧ Doubled t length) ∨
      (((∀ result, d ≠ .ended result) ∧ ¬ d.LeavesPeriod) ∧ length = t.minInterval) ∨
      (d.LeavesPeriod ∧ length = t.currentInterval) := by
  cases d with
  | enabled result => exact .inl ⟨result, rfl, h⟩
  | ended result => exact .inr (.inl ⟨result, rfl, h⟩)
  | reset => exact .inr (.inr (.inl ⟨⟨(fun _ he => nomatch he), fun hd => nomatch hd.1⟩, h⟩))
  | stopped => exact .inr (.inr (.inl ⟨⟨(fun _ he => nomatch he), fun hd => hd.2 rfl⟩, h⟩))
  | heardInconsistent restarted =>
    cases restarted with
    | true => exact .inr (.inr (.inl ⟨⟨(fun _ he => nomatch he), fun hd => nomatch hd.1⟩, h⟩))
    | false => exact .inr (.inr (.inr ⟨⟨rfl, nofun⟩, h⟩))
  | heardConsistent | parametersSet | callbackSet | fired | other => exact .inr (.inr (.inr ⟨⟨rfl, nofun⟩, h⟩))

/-- What leaves the period as it is leaves its length as it is. -/
theorem Deed.Yields.of_leavesPeriod {t : Trickle α} {length : Time} {d : Deed α} (h : d.Yields t length)
    (hd : d.LeavesPeriod) : length = t.currentInterval := by
  rcases h.cases with ⟨result, rfl, -⟩ | ⟨result, rfl, -⟩ | ⟨⟨-, hnot⟩, -⟩ | ⟨-, heq⟩
  · cases hd.1
  · cases hd.1
  · exact absurd hd hnot
  · exact heq

/-- What a step does to the parameters and to the length. -/
theorem Step.yields (ht : Accepted x.timer) (hm : Step actions x m) :
    Accepted m.state.timer ∧ (m.deed ≠ .parametersSet → SameParameters x.timer m.state.timer) ∧
      m.deed.Yields x.timer m.state.timer.currentInterval := by
  suffices h : (m.deed ≠ .parametersSet → SameParameters x.timer m.state.timer) ∧
      (m.deed = .parametersSet → Accepted m.state.timer) ∧ m.deed.Yields x.timer m.state.timer.currentInterval by
    refine ⟨?_, h.1, h.2.2⟩
    by_cases hd : m.deed = .parametersSet
    · exact h.2.1 hd
    · exact ht.of_same (h.1 hd)
  cases hm with
  | enabled he =>
    obtain ⟨hsame, hdrawn⟩ := drawn_of_enable ht he
    exact ⟨fun _ => hsame, nofun, hdrawn⟩
  | reset he =>
    obtain ⟨hsame, hlength⟩ := reset_keeps he
    exact ⟨fun _ => hsame, nofun, hlength⟩
  | stopped he =>
    obtain ⟨rfl, -⟩ := stop_eq_ok he
    exact ⟨fun _ => ⟨rfl, rfl, rfl⟩, nofun, rfl⟩
  | heardInconsistent he =>
    rcases hearInconsistent_eq_ok he with ⟨hlt, he⟩ | ⟨hle, rfl, rfl⟩
    · obtain ⟨hsame, hlength⟩ := reset_keeps he
      rw [decide_eq_true hlt]
      exact ⟨fun _ => hsame, nofun, hlength⟩
    · rw [decide_eq_false hle]
      exact ⟨fun _ => .refl _, nofun, rfl⟩
  | parametersSet he =>
    obtain ⟨maxInterval, rfl⟩ := setParameters_eq_ok he
    exact ⟨fun hd => absurd rfl hd, fun _ => accepted_of_setParameters he, rfl⟩
  | ended _ _ he =>
    obtain ⟨hsame, hdoubled⟩ := doubled_of_endInterval he
    exact ⟨fun _ => hsame, nofun, hdoubled⟩
  | heardConsistent | callbackSet | fired | other => exact ⟨fun _ => ⟨rfl, rfl, rfl⟩, nofun, rfl⟩

/-- The parameters are accepted ones, and the length is not negative. -/
structure Regular (t : Trickle α) : Prop where
  accepted : Accepted t
  length_nonneg : 0 ≤ t.currentInterval.femtos

/-- The length lies between the least and the greatest one. -/
structure Within (t : Trickle α) : Prop where
  min_le : t.minInterval.femtos ≤ t.currentInterval.femtos
  le_max : t.currentInterval.femtos ≤ t.maxInterval.femtos

theorem SameParameters.within_iff {t t' : Trickle α} (h : SameParameters t t') : Within t' ↔
    t.minInterval.femtos ≤ t'.currentInterval.femtos ∧ t'.currentInterval.femtos ≤ t.maxInterval.femtos := by
  rw [← h.minInterval, ← h.maxInterval]
  exact ⟨fun ⟨hmin, hmax⟩ => ⟨hmin, hmax⟩, fun ⟨hmin, hmax⟩ => ⟨hmin, hmax⟩⟩

theorem regular_of_new {t : Trickle α} {minInterval : Time} {doublings redundancy : Nat}
    (h : ofParameters minInterval doublings redundancy = .ok t) : Regular t := by
  have ht := accepted_of_setParameters h
  obtain ⟨maxInterval, rfl⟩ := setParameters_eq_ok h
  exact ⟨ht, le_rfl⟩

/-- One case for each thing that can happen to the timer. -/
theorem Regular.step (x : System α) (m : Moment α) (h : Regular x.timer) (hm : Step actions x m) :
    Regular m.state.timer := by
  obtain ⟨haccepted, -, hyields⟩ := hm.yields h.accepted
  have hmin := h.accepted.min_pos
  have hmax := h.accepted.min_le_max
  have hlength := h.length_nonneg
  refine ⟨haccepted, ?_⟩
  rcases hyields.cases with ⟨-, -, hdrawn⟩ | ⟨-, -, hdoubled⟩ | ⟨-, heq⟩ | ⟨-, heq⟩
  · have := hdrawn.low
    omega
  · have := hdoubled.eq_min
    omega
  · rw [heq]
    omega
  · rw [heq]
    exact hlength

/-- While the parameters stay as they are, no length leaves their range. -/
theorem Within.step (h : Within x.timer) (ht : Regular x.timer) (hm : Step actions x m) (hd : m.deed ≠ .parametersSet)
    (hexact : m.deed.DrawsExactly x.timer) : Within m.state.timer := by
  obtain ⟨-, hsame, hyields⟩ := hm.yields ht.accepted
  have hmin := ht.accepted.min_pos
  have hmax := ht.accepted.min_le_max
  obtain ⟨hlow, hhigh⟩ := h
  rw [(hsame hd).within_iff]
  rcases hyields.cases with ⟨result, he, hdrawn⟩ | ⟨-, -, hdoubled⟩ | ⟨-, heq⟩ | ⟨-, heq⟩
  · exact hdrawn.exact (hexact result he)
  · have := hdoubled.eq_min
    omega
  · rw [heq]
    exact ⟨le_rfl, hmax⟩
  · rw [heq]
    exact ⟨hlow, hhigh⟩

/-- A period that begins is shorter than the least one just if it is the one after a period shorter than half of that. -/
theorem Step.within_iff (hb : Step actions y b) (hbegins : b.deed.result? ≠ none) (hy : Accepted y.timer)
    (hexact : b.deed.DrawsExactly y.timer) :
    Within b.state.timer ↔
      ∀ result, b.deed = .ended result → y.timer.minInterval.femtos ≤ 2 * y.timer.currentInterval.femtos := by
  obtain ⟨-, hsame, hyields⟩ := hb.yields hy
  have hd : b.deed ≠ .parametersSet := fun hd => hbegins (by rw [hd]; rfl)
  have hmin := hy.min_le_max
  rw [(hsame hd).within_iff]
  rcases hyields.cases with ⟨result, he, hdrawn⟩ | ⟨result, he, hdoubled⟩ | ⟨⟨he, -⟩, heq⟩ | ⟨hleaves, -⟩
  · simp only [he, reduceCtorEq, false_implies, implies_true, iff_true]
    exact hdrawn.exact (hexact result he)
  · simp only [he, Deed.ended.injEq, forall_eq']
    have := hdoubled.eq_min
    omega
  · rw [heq]
    exact ⟨fun _ result hd => absurd hd (he result), fun _ => ⟨le_rfl, hmin⟩⟩
  · exact absurd hleaves.1 hbegins

/-! ## Histories -/

theorem Regular.path (h : Regular x.timer) (hp : Path (Step actions) x ms y) : Regular y.timer :=
  (hp.invariant (I := fun x => Regular x.timer) Regular.step h).1

/-- Nothing that happens while the timer is left to its period changes its length. -/
theorem length_of_leavesPeriod (ht : Regular x.timer) (hp : Path (Step actions) x ms y)
    (hms : ∀ m ∈ ms, m.deed.LeavesPeriod) : y.timer.currentInterval = x.timer.currentInterval := by
  induction hp with
  | nil => rfl
  | cons hm _ ih =>
    obtain ⟨hleaves, hms⟩ := List.forall_mem_cons.1 hms
    obtain ⟨-, -, hyields⟩ := hm.yields ht.accepted
    exact (ih (ht.step _ _ hm) hms).trans (hyields.of_leavesPeriod hleaves)

/-- As long as the parameters stay as they are, no length leaves their range. -/
theorem within_of_path (ht : Regular x.timer) (h : Within x.timer) (hp : Path (Step actions) x ms y)
    (hms : ∀ m ∈ ms, m.deed ≠ .parametersSet ∧ m.deed.DrawsExactly x.timer) :
    SameParameters x.timer y.timer ∧ Within y.timer := by
  induction hp with
  | nil => exact ⟨.refl _, h⟩
  | cons hm _ ih =>
    obtain ⟨⟨hd, hexact⟩, hms⟩ := List.forall_mem_cons.1 hms
    have hsame := (hm.yields ht.accepted).2.1 hd
    have hms' := fun n hn => (hms n hn).imp_right fun hn result he => hsame.minInterval ▸ hn result he
    obtain ⟨hrest, hwithin⟩ := ih (ht.step _ _ hm) (h.step ht hm hd hexact) hms'
    exact ⟨hsame.trans hrest, hwithin⟩

/-- **Lengths of periods.** Take any history of a new timer with parameters that it accepted, and a period that it begins
then.

* If the period before ended, the length is twice that of the period before or the greatest one, whichever is less. If the
  timer was reset or heard an inconsistency, it is the least one, and if the timer was enabled, it is drawn. It lies between
  the least and the greatest one, but for a period after one that is shorter than half of the least length, as there is
  when the least length was raised meanwhile. For lengths that are drawn this holds if the least length is a double, and
  else up to the precision of a double.
* If the timer is then left to this period, also if its parameters change, the next one is twice as long, or as long as the
  greatest one then.
* If its parameters stay as they are, no period leaves their range from then on, whatever else happens.

At each moment the end of the period fails for a time that does not fit just if twice its length does not fit. -/
theorem lengths_of_path {minInterval : Time} {doublings redundancy : Nat}
    (hnew : ofParameters minInterval doublings redundancy = .ok x.timer) (hp : Path (Step actions) x ms y) :
    (∀ {ω : Type} (handle : Handler α ω) (s : Simulator α) (w : ω),
      (y.timer.endInterval actions).exec handle s w = .error .overflow ↔
        Time.greatest < 2 * y.timer.currentInterval.femtos) ∧
    ∀ b, Step actions y b → b.deed.result? = some (.ok ()) →
      (Accepted b.state.timer ∧ SameParameters y.timer b.state.timer ∧
        b.deed.Yields y.timer b.state.timer.currentInterval ∧
        (b.deed.DrawsExactly y.timer → (Within b.state.timer ↔
          ∀ result, b.deed = .ended result → y.timer.minInterval.femtos ≤ 2 * y.timer.currentInterval.femtos))) ∧
      (∀ ns z, Path (Step actions) b.state ns z → (∀ n ∈ ns, n.deed.LeavesPeriod) →
        z.timer.currentInterval = b.state.timer.currentInterval ∧
        ∀ e, Step actions z e → e.deed = .ended (.ok ()) → e.state.timer.currentInterval.femtos =
          min (2 * b.state.timer.currentInterval.femtos) z.timer.maxInterval.femtos) ∧
      (Within b.state.timer → ∀ ns z, Path (Step actions) b.state ns z →
        (∀ n ∈ ns, n.deed ≠ .parametersSet ∧ n.deed.DrawsExactly b.state.timer) →
          SameParameters b.state.timer z.timer ∧ Within z.timer) := by
  have hy := (regular_of_new hnew).path hp
  refine ⟨fun handle s w => exec_endInterval_eq_overflow_iff _ handle s w hy.length_nonneg, fun b hb hbegins => ?_⟩
  obtain ⟨haccepted, hsame, hyields⟩ := hb.yields hy.accepted
  have hne : b.deed ≠ .parametersSet := fun hd => by rw [hd] at hbegins; cases hbegins
  have hregular := hy.step _ _ hb
  refine ⟨⟨haccepted, hsame hne, hyields, fun hexact => ?_⟩, fun ns z hq hns => ?_, fun hwithin ns z hq hns => ?_⟩
  · exact hb.within_iff (by rw [hbegins]; exact Option.some_ne_none _) hy.accepted hexact
  · have hlength := length_of_leavesPeriod hregular hq hns
    refine ⟨hlength, fun e he hended => ?_⟩
    obtain ⟨-, -, hnext⟩ := he.yields (hregular.path hq).accepted
    rw [hended] at hnext
    rw [← hlength]
    exact hnext.eq_min
  · exact within_of_path hregular hwithin hq hns

end Steps

/-! ## A timer whose parameters change -/

/-- A new timer with periods of the length, and a new simulator. -/
def fresh (length : Time) : System Nat := ⟨Simulator.ofConfig 0 {}, { every length with callback := none }⟩

/-- The timer gets other parameters, fires, and its period is over: the system before the next period is begun, the event
at which that happens and the simulator then. -/
def untilEnd? (y : System Nat) (minInterval : Time) (doublings : Nat) :
    Option (System Nat × EventRecord (Action Nat) × Simulator Nat) := do
  let t ← (y.timer.setParameters minInterval doublings 0).toOption
  let (r, s) ← beginNext? y.sim
  if r.action = .perform twoActions.fire then
    let (r', s') ← beginNext? s
    if r'.action = .perform twoActions.endInterval then some (⟨s, t.fire.2⟩, r', s') else none
  else none

theorem path_of_untilEnd? {y z : System Nat} {minInterval : Time} {doublings : Nat} {r : EventRecord (Action Nat)}
    {s : Simulator Nat} (h : untilEnd? y minInterval doublings = some (z, r, s)) :
    (∃ ns callback, Path (Step twoActions) y ns z ∧ ns.map Moment.deed = [.parametersSet, .fired callback]) ∧
      z.sim.Step ⟨.began r, s⟩ ∧ r.action = .perform twoActions.endInterval := by
  simp only [untilEnd?, bind, Option.bind_eq_some_iff, Prod.exists] at h
  obtain ⟨t, ht, r₁, s₁, hfirst, h⟩ := h
  have hset : y.timer.setParameters minInterval doublings 0 = .ok t := by
    cases hs : y.timer.setParameters minInterval doublings 0 with
    | error e => rw [hs] at ht; cases ht
    | ok t' => rw [hs] at ht; cases ht; rfl
  split at h
  case isFalse => cases h
  case isTrue hfire =>
    simp only [Option.bind_eq_some_iff, Prod.exists] at h
    obtain ⟨r₂, s₂, hsecond, h⟩ := h
    split at h
    case isFalse => cases h
    case isTrue hend =>
      cases h
      have hfired : Step twoActions ⟨y.sim, t⟩ ⟨.fired t.fire.1, s₁, t.fire.2⟩ :=
        .fired (step_of_beginNext? hfirst) hfire
      exact ⟨⟨_, _, .cons (.parametersSet hset) (.cons hfired (.nil _)), rfl⟩, step_of_beginNext? hsecond, hend⟩

/-- A timer whose greatest length is raised in its first period. -/
theorem lengths_of_path_raised : ∃ (x y z : System Nat) (ms ns : List (Moment Nat)) (b e : Moment Nat),
    ofParameters ⟨10_000_000, by decide, by decide⟩ 0 0 = .ok x.timer ∧ Path (Step twoActions) x ms y ∧
      Step twoActions y b ∧ b.deed = .reset (.ok ()) ∧ Path (Step twoActions) b.state ns z ∧ Step twoActions z e ∧
      (∃ callback, ns.map Moment.deed = [.parametersSet, .fired callback]) ∧ e.deed = .ended (.ok ()) ∧
      b.state.timer.currentInterval.femtos = 10_000_000 ∧ e.state.timer.currentInterval.femtos = 20_000_000 := by
  have hrun : (firstPeriod? {} ⟨10_000_000, by decide, by decide⟩).map (fun y =>
      (untilEnd? y ⟨10_000_000, by decide, by decide⟩ 1).map fun q =>
        (q.1.timer.maxInterval.femtos, (secondPeriod? q.2.2 q.1.timer).isSome)) = some (some (20_000_000, true)) := by
    decide +kernel
  obtain ⟨y, hy, hrun⟩ := Option.map_eq_some_iff.1 hrun
  obtain ⟨⟨z, r, s⟩, hz, hrun⟩ := Option.map_eq_some_iff.1 hrun
  obtain ⟨hmax, hsecond⟩ := Prod.mk.inj hrun
  obtain ⟨u, hu⟩ := Option.isSome_iff_exists.1 hsecond
  obtain ⟨⟨ns, callback, hns, hdeeds⟩, hbegan, ha⟩ := path_of_untilEnd? hz
  have hleaves : ∀ n ∈ ns, n.deed.LeavesPeriod := by
    intro n hn
    have hd : n.deed ∈ ns.map Moment.deed := List.mem_map_of_mem hn
    rw [hdeeds] at hd
    simp only [List.mem_cons, List.not_mem_nil, or_false] at hd
    rcases hd with hd | hd <;> rw [hd] <;> exact ⟨rfl, nofun⟩
  have hms : Path (Step twoActions) (fresh ⟨10_000_000, by decide, by decide⟩)
      [⟨.callbackSet, ⟨_, every ⟨10_000_000, by decide, by decide⟩⟩⟩] _ := .cons (.callbackSet 2) (.nil _)
  have hended := step_of_secondPeriod? hbegan ha hu
  have hnew : ofParameters ⟨10_000_000, by decide, by decide⟩ 0 0 = .ok (fresh ⟨10_000_000, by decide, by decide⟩).timer :=
    rfl
  obtain ⟨⟨-, -, hlength, -⟩, hnext, -⟩ := (lengths_of_path hnew hms).2 _ (step_of_firstPeriod? hy) rfl
  have hb : y.timer.currentInterval.femtos = 10_000_000 := congrArg Time.femtos hlength
  have he : u.timer.currentInterval.femtos = 20_000_000 := by
    have hmax : z.timer.maxInterval.femtos = 20_000_000 := hmax
    have : u.timer.currentInterval.femtos = min (2 * y.timer.currentInterval.femtos) z.timer.maxInterval.femtos :=
      (hnext ns z hns hleaves).2 _ hended rfl
    omega
  exact ⟨_, _, z, _, ns, _, _, hnew, hms, step_of_firstPeriod? hy, rfl, hns, hended, ⟨callback, hdeeds⟩, rfl, hb, he⟩

/-- The timer and the simulator after the timer was enabled. -/
def drawnPeriod? (length : Time) : Option (System Nat) :=
  match ((every length).enable twoActions).exec Handler.refuse (Simulator.ofConfig 0 {}) () with
  | .ok (.ok (.ok (), t), s, _) => some ⟨s, t⟩
  | _ => none

theorem step_of_drawnPeriod? {length : Time} {y : System Nat} (h : drawnPeriod? length = some y) :
    Step twoActions ⟨Simulator.ofConfig 0 {}, every length⟩ ⟨.enabled (.ok ()), y⟩ := by
  unfold drawnPeriod? at h
  split at h
  case h_1 t s w he => cases h; exact .enabled he
  case h_2 => cases h

/-- A period that begins after the least length was raised is shorter than that; a length that is drawn is less than the
least one, or more than the greatest one, if these are no doubles; and ending a period fails for a time that does not fit,
although the greatest length then is small. -/
theorem exists_length_outside_and_overflow :
    (∃ (x z : System Nat) (ms : List (Moment Nat)) (e : Moment Nat),
      ofParameters ⟨10_000_000, by decide, by decide⟩ 0 0 = .ok x.timer ∧ Path (Step twoActions) x ms z ∧
        Step twoActions z e ∧ e.deed = .ended (.ok ()) ∧ e.state.timer.minInterval.femtos = 100_000_000 ∧
        e.state.timer.currentInterval.femtos = 20_000_000) ∧
    (∃ (x y : System Nat) (ms : List (Moment Nat)) (b : Moment Nat),
      ofParameters ⟨10_000_000_000_000_001, by decide, by decide⟩ 0 0 = .ok x.timer ∧ Path (Step twoActions) x ms y ∧
        Step twoActions y b ∧ b.deed = .enabled (.ok ()) ∧
        b.state.timer.currentInterval.femtos < b.state.timer.minInterval.femtos) ∧
    (∃ (x y : System Nat) (ms : List (Moment Nat)) (b : Moment Nat),
      ofParameters ⟨10_000_000_000_000_003, by decide, by decide⟩ 0 0 = .ok x.timer ∧ Path (Step twoActions) x ms y ∧
        Step twoActions y b ∧ b.deed = .enabled (.ok ()) ∧
        b.state.timer.maxInterval.femtos < b.state.timer.currentInterval.femtos) ∧
    ∃ (x z : System Nat) (ms : List (Moment Nat)) (r : EventRecord (Action Nat)) (s : Simulator Nat),
      ofParameters ⟨2 ^ 126, by decide, by decide⟩ 0 0 = .ok x.timer ∧ Path (Step twoActions) x ms z ∧
        z.timer.maxInterval.femtos = 10_000_000 ∧ z.sim.Step ⟨.began r, s⟩ ∧
        r.action = .perform twoActions.endInterval ∧
        (z.timer.endInterval twoActions).exec Handler.refuse s () = .error .overflow := by
  have hset (length : Time) : Step twoActions (fresh length) ⟨.callbackSet, ⟨_, every length⟩⟩ := .callbackSet 2
  refine ⟨?_, ?_, ?_, ?_⟩
  · have hrun : (firstPeriod? {} ⟨10_000_000, by decide, by decide⟩).bind (fun y =>
        (untilEnd? y ⟨100_000_000, by decide, by decide⟩ 0).bind fun q => (secondPeriod? q.2.2 q.1.timer).map fun u =>
          (u.timer.minInterval.femtos, u.timer.currentInterval.femtos)) = some (100_000_000, 20_000_000) := by
      decide +kernel
    obtain ⟨y, hy, hrun⟩ := Option.bind_eq_some_iff.1 hrun
    obtain ⟨⟨z, r, s⟩, hz, hrun⟩ := Option.bind_eq_some_iff.1 hrun
    obtain ⟨u, hu, hlengths⟩ := Option.map_eq_some_iff.1 hrun
    obtain ⟨hmin, hlength⟩ := Prod.mk.inj hlengths
    obtain ⟨⟨ns, -, hns, -⟩, hbegan, ha⟩ := path_of_untilEnd? hz
    exact ⟨_, z, _, _, rfl, .cons (hset _) (.cons (step_of_firstPeriod? hy) hns), step_of_secondPeriod? hbegan ha hu, rfl,
      hmin, hlength⟩
  · have hrun : (drawnPeriod? ⟨10_000_000_000_000_001, by decide, by decide⟩).map (fun y =>
        decide (y.timer.currentInterval.femtos < y.timer.minInterval.femtos)) = some true := by
      decide +kernel
    obtain ⟨y, hy, hlt⟩ := Option.map_eq_some_iff.1 hrun
    exact ⟨_, _, _, _, rfl, .cons (hset _) (.nil _), step_of_drawnPeriod? hy, rfl, of_decide_eq_true hlt⟩
  · have hrun : (drawnPeriod? ⟨10_000_000_000_000_003, by decide, by decide⟩).map (fun y =>
        decide (y.timer.maxInterval.femtos < y.timer.currentInterval.femtos)) = some true := by
      decide +kernel
    obtain ⟨y, hy, hlt⟩ := Option.map_eq_some_iff.1 hrun
    exact ⟨_, _, _, _, rfl, .cons (hset _) (.nil _), step_of_drawnPeriod? hy, rfl, of_decide_eq_true hlt⟩
  · have hrun : (firstPeriod? {} ⟨2 ^ 126, by decide, by decide⟩).bind (fun y =>
        (untilEnd? y ⟨10_000_000, by decide, by decide⟩ 0).map fun q =>
          (q.1.timer.maxInterval.femtos, q.1.timer.currentInterval.femtos)) = some (10_000_000, 2 ^ 126) := by
      decide +kernel
    obtain ⟨y, hy, hrun⟩ := Option.bind_eq_some_iff.1 hrun
    obtain ⟨⟨z, r, s⟩, hz, hlengths⟩ := Option.map_eq_some_iff.1 hrun
    obtain ⟨hmax, hlength⟩ := Prod.mk.inj hlengths
    obtain ⟨⟨ns, -, hns, -⟩, hbegan, ha⟩ := path_of_untilEnd? hz
    have hover : Time.greatest < 2 * z.timer.currentInterval.femtos := by
      rw [hlength]
      decide
    exact ⟨_, z, _, r, s, rfl, .cons (hset _) (.cons (step_of_firstPeriod? hy) hns), hmax, hbegan, ha,
      (exec_endInterval_eq_overflow_iff _ _ _ _ (by rw [hlength]; decide)).2 hover⟩

end Trickle

end SimKernel
