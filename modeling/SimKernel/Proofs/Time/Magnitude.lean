import Mathlib.Data.Nat.Prime.Basic
import Mathlib.Tactic.Ring
import SimKernel.Proofs.Outcome
import SimKernel.Proofs.Text.Runs
import SimKernel.Time.Text

/-!
# Exact magnitudes

What is read from the digits before and after the point of a number of units (`readMagnitude_eq`). Below `n` digits after the
point stand for a numerator over `10 ^ n`, so all statements are about natural numbers multiplied by that power.

* Whatever is read is exact (`exact_of_readMagnitude_eq_ok`).
* What becomes of a whole number of femtoseconds (`readMagnitude_of_whole`). If it is a magnitude it is read, unless the
  digits after the point, taken as a whole number of units, are too many femtoseconds (`readMagnitude_of_exact`). That can
  only happen for days (`mul_femtos_lt_of_ne_day`), as few digits after the point stand for whole femtoseconds
  (`length_le_of_dvd`).
-/

namespace SimKernel

open Text

/-- The most digits after the point with which a number of units is a whole number of femtoseconds, if the last of them is
not zero. -/
def TimeUnit.places : TimeUnit → Nat
  | day => 22
  | hour => 19
  | minute => 17
  | second => 15
  | millisecond => 12
  | microsecond => 9
  | nanosecond => 6
  | picosecond => 3
  | femtosecond => 0

namespace Time

/-- The least number of femtoseconds that is no magnitude. -/
abbrev magnitudeBound : Nat := 0x8000_0000_0000_0000_0000_0000_0000_0000

theorem magnitude_eq_ok_iff {e : TimeError} {n : Nat} {m : Magnitude} : magnitude e n = .ok m ↔ m.val = n := by
  unfold magnitude
  split
  case isTrue h =>
    constructor
    · rintro ⟨⟩
      rfl
    · rintro rfl
      rfl
  case isFalse h =>
    refine ⟨(by rintro ⟨⟩), ?_⟩
    rintro rfl
    exact absurd m.isLt h

theorem magnitude_eq_error_iff {e e' : TimeError} {n : Nat} : magnitude e n = .error e' ↔ magnitudeBound ≤ n ∧ e' = e := by
  unfold magnitude
  split
  case isTrue h => exact ⟨(by rintro ⟨⟩), fun ⟨hle, _⟩ => absurd h (Nat.not_lt.2 hle)⟩
  case isFalse h => exact ⟨(by rintro ⟨⟩; exact ⟨Nat.not_lt.1 h, rfl⟩), (by rintro ⟨-, rfl⟩; rfl)⟩

theorem magnitude_of_lt {n : Nat} (e : TimeError) (h : n < magnitudeBound) : magnitude e n = .ok ⟨n, h⟩ :=
  magnitude_eq_ok_iff.2 rfl

theorem magnitude_of_le {n : Nat} (e : TimeError) (h : magnitudeBound ≤ n) : magnitude e n = .error e :=
  dif_neg (Nat.not_lt.2 h)

theorem magnitude_bind {α : Type} {n : Nat} {e : TimeError} {f : Magnitude → Except TimeError α} {r : Except TimeError α}
    (h : ∀ m : Magnitude, m.val = n → f m = r) : magnitude e n >>= f = if magnitudeBound ≤ n then .error e else r := by
  split
  case isTrue hle =>
    rw [magnitude_of_le e hle]
    rfl
  case isFalse hlt =>
    rw [magnitude_of_lt e (Nat.not_le.1 hlt)]
    exact h _ rfl

/-! ## Whole femtoseconds -/

section Whole

variable {d n : Nat} {unit : TimeUnit}

theorem not_pow_dvd_femtos (unit : TimeUnit) :
    ¬ 2 ^ (unit.places + 1) ∣ unit.femtos ∧ ¬ 5 ^ (unit.places + 1) ∣ unit.femtos := by
  cases unit <;> decide

/-- A number of units with `d` digits after the point, the last of them not zero, that is a whole number of femtoseconds. -/
theorem length_le_of_dvd (hn : ¬ 10 ∣ n) (h : 10 ^ d ∣ n * unit.femtos) : d ≤ unit.places := by
  by_contra hlt
  have hdvd : (2 * 5) ^ (unit.places + 1) ∣ n * unit.femtos := (Nat.pow_dvd_pow 10 (by omega)).trans h
  rw [Nat.mul_pow] at hdvd
  obtain ⟨htwo, hfive⟩ := not_pow_dvd_femtos unit
  -- a number that is no multiple of ten lacks one of its two factors, which then divides the unit
  by_cases h2 : 2 ∣ n
  · have h5 : ¬ 5 ∣ n := fun h5 => hn (Nat.Coprime.mul_dvd_of_dvd_of_dvd (by decide) h2 h5)
    have hcoprime := ((Nat.Prime.coprime_iff_not_dvd Nat.prime_five).2 h5).pow_left (unit.places + 1)
    exact hfive (hcoprime.dvd_of_dvd_mul_left (Dvd.dvd.trans (Nat.dvd_mul_left _ _) hdvd))
  · have hcoprime := ((Nat.Prime.coprime_iff_not_dvd Nat.prime_two).2 h2).pow_left (unit.places + 1)
    exact htwo (hcoprime.dvd_of_dvd_mul_left (Dvd.dvd.trans (Nat.dvd_mul_right _ _) hdvd))

theorem ten_pow_lt (h : d ≤ unit.places) : d < UInt32.size ∧ 10 ^ d < magnitudeBound := by
  have hplaces : unit.places ≤ 22 := by cases unit <;> decide
  refine ⟨by rw [show UInt32.size = 4294967296 from rfl]; omega, ?_⟩
  exact Nat.lt_of_le_of_lt (Nat.pow_le_pow_right (by decide) (h.trans hplaces)) (by decide)

/-- Digits after the point of anything shorter than a day are few femtoseconds, even as a whole number of units. -/
theorem mul_femtos_lt_of_ne_day (hday : unit ≠ .day) (h : d ≤ unit.places) (hn : n < 10 ^ d) :
    n * unit.femtos < magnitudeBound := by
  have hle : n * unit.femtos ≤ 10 ^ unit.places * unit.femtos :=
    Nat.mul_le_mul_right _ (hn.le.trans (Nat.pow_le_pow_right (by decide) h))
  refine Nat.lt_of_le_of_lt hle ?_
  cases unit with
  | day => exact absurd rfl hday
  | _ => decide

end Whole

/-! ## Reading -/

section Reading

variable {input : String} {unit : TimeUnit} {whole fraction : List Char} {m : Magnitude}

/-- The steps of reading. If there are no digits after the point, the power of ten is one. -/
theorem readMagnitude_eq {decimals : List Char} (hdecimals : dropTrailingZeros fraction = decimals)
    (hdigit : ∀ c ∈ fraction, c.isDigit = true) :
    readMagnitude input unit whole fraction =
      if magnitudeBound ≤ ofDigits whole then .error (.invalidNumber input)
      else if magnitudeBound ≤ ofDigits whole * unit.femtos then .error (.overflow input)
      else if magnitudeBound ≤ 10 ^ (decimals.length % UInt32.size) then .error (.tooPrecise input)
      else if magnitudeBound ≤ ofDigits decimals then .error (.invalidNumber input)
      else if magnitudeBound ≤ ofDigits decimals * unit.femtos then .error (.overflow input)
      else if 10 ^ (decimals.length % UInt32.size) ∣ ofDigits decimals * unit.femtos then
        magnitude (.overflow input)
          (ofDigits whole * unit.femtos + ofDigits decimals * unit.femtos / 10 ^ (decimals.length % UInt32.size))
      else .error (.tooPrecise input) := by
  unfold readMagnitude
  refine magnitude_bind fun units hunits => ?_
  rw [hunits]
  refine magnitude_bind fun femtos hfemtos => ?_
  rw [if_pos (List.all_eq_true.2 hdigit), hdecimals]
  cases decimals with
  | nil =>
    rw [List.length_nil, Nat.zero_mod, Nat.pow_zero, ofDigits_nil, Nat.zero_mul, Nat.zero_div, Nat.add_zero,
      if_pos List.isEmpty_nil, if_neg (by decide), if_neg (by decide), if_neg (by decide), if_pos (Nat.dvd_zero 1)]
    exact (magnitude_eq_ok_iff.2 hfemtos).symm
  | cons c decimals =>
    refine magnitude_bind fun scale hscale => ?_
    refine magnitude_bind fun numerator hnumerator => ?_
    rw [hnumerator]
    refine magnitude_bind fun scaled hscaled => ?_
    simp only [hscale, hscaled, hfemtos, Nat.dvd_iff_mod_eq_zero]
    rfl

theorem isDigit_of_readMagnitude_eq_ok (h : readMagnitude input unit whole fraction = .ok m) :
    ∀ c ∈ fraction, c.isDigit = true := by
  unfold readMagnitude at h
  obtain ⟨units, -, h⟩ := Outcome.bind_eq_ok_iff.1 h
  obtain ⟨femtos, -, h⟩ := Outcome.bind_eq_ok_iff.1 h
  split at h
  case isTrue hdigit => exact List.all_eq_true.1 hdigit
  case isFalse => cases h

/-- What is read is the whole number of units and a quotient without remainder. -/
theorem exists_quotient_of_readMagnitude_eq_ok (h : readMagnitude input unit whole fraction = .ok m) :
    ∃ quotient, ofDigits (dropTrailingZeros fraction) * unit.femtos =
        10 ^ ((dropTrailingZeros fraction).length % UInt32.size) * quotient ∧
      m.val = ofDigits whole * unit.femtos + quotient := by
  rw [readMagnitude_eq rfl (isDigit_of_readMagnitude_eq_ok h)] at h
  split_ifs at h with _ _ _ _ _ hdvd
  rw [magnitude_eq_ok_iff] at h
  exact ⟨_, (Nat.mul_div_cancel' hdvd).symm, h⟩

/-- Digits before the point and a quotient without remainder make a whole number of femtoseconds. -/
theorem exact_of_quotient {quotient : Nat}
    (h : ofDigits (dropTrailingZeros fraction) * unit.femtos = 10 ^ (dropTrailingZeros fraction).length * quotient) :
    (ofDigits whole * unit.femtos + quotient) * 10 ^ fraction.length =
      (ofDigits whole * 10 ^ fraction.length + ofDigits fraction) * unit.femtos := by
  obtain ⟨k, hk, hzeros⟩ := exists_dropTrailingZeros fraction
  calc (ofDigits whole * unit.femtos + quotient) * 10 ^ fraction.length
      = (ofDigits whole * unit.femtos * 10 ^ (dropTrailingZeros fraction).length +
          10 ^ (dropTrailingZeros fraction).length * quotient) * 10 ^ k := by rw [hk]; ring
    _ = (ofDigits whole * 10 ^ fraction.length + ofDigits fraction) * unit.femtos := by rw [← h, hzeros, hk]; ring

/-- **What is read is exact,** unless there are more digits after the point than 32 bits count. -/
theorem exact_of_readMagnitude_eq_ok (h : readMagnitude input unit whole fraction = .ok m)
    (hlen : fraction.length < UInt32.size) :
    m.val * 10 ^ fraction.length = (ofDigits whole * 10 ^ fraction.length + ofDigits fraction) * unit.femtos := by
  obtain ⟨quotient, hquotient, hm⟩ := exists_quotient_of_readMagnitude_eq_ok h
  obtain ⟨k, hk, -⟩ := exists_dropTrailingZeros fraction
  rw [Nat.mod_eq_of_lt (by omega)] at hquotient
  rw [hm]
  exact exact_of_quotient hquotient

/-- A whole number of femtoseconds is what comes from the digits before the point and a quotient without remainder. -/
theorem exists_quotient_of_exact {n : Nat}
    (hn : n * 10 ^ fraction.length = (ofDigits whole * 10 ^ fraction.length + ofDigits fraction) * unit.femtos) :
    ∃ quotient, n = ofDigits whole * unit.femtos + quotient ∧
      ofDigits (dropTrailingZeros fraction) * unit.femtos = 10 ^ (dropTrailingZeros fraction).length * quotient := by
  obtain ⟨k, hk, hzeros⟩ := exists_dropTrailingZeros fraction
  have hten : 0 < 10 := by decide
  have hexact : n * 10 ^ (dropTrailingZeros fraction).length =
      ofDigits whole * unit.femtos * 10 ^ (dropTrailingZeros fraction).length +
        ofDigits (dropTrailingZeros fraction) * unit.femtos := by
    refine Nat.eq_of_mul_eq_mul_right (Nat.pow_pos (n := k) hten) ?_
    rw [hzeros, hk] at hn
    calc _ = n * 10 ^ ((dropTrailingZeros fraction).length + k) := by ring
      _ = _ := by rw [hn]; ring
  obtain ⟨quotient, rfl⟩ := Nat.exists_eq_add_of_le
    (Nat.le_of_mul_le_mul_right (Nat.le_of_add_right_le (Nat.le_of_eq hexact.symm)) (Nat.pow_pos hten))
  rw [Nat.add_mul] at hexact
  exact ⟨quotient, rfl, by rw [← Nat.add_left_cancel hexact, Nat.mul_comm]⟩

/-- A whole number of femtoseconds has few digits after the point. -/
theorem length_dropTrailingZeros_le (hdigit : ∀ c ∈ fraction, c.isDigit = true)
    (h : 10 ^ (dropTrailingZeros fraction).length ∣ ofDigits (dropTrailingZeros fraction) * unit.femtos) :
    (dropTrailingZeros fraction).length ≤ unit.places := by
  by_cases hempty : dropTrailingZeros fraction = []
  · rw [hempty]
    exact Nat.zero_le _
  · exact length_le_of_dvd (not_ten_dvd_ofDigits hdigit hempty) h

/-- A whole number of femtoseconds, be it a magnitude or not. Digits before the point that are no magnitude are refused as no
number; all else is out of range, and so is a magnitude if the digits after the point are none as a number of units. -/
theorem readMagnitude_of_whole {n : Nat} (hdigit : ∀ c ∈ fraction, c.isDigit = true)
    (hn : n * 10 ^ fraction.length = (ofDigits whole * 10 ^ fraction.length + ofDigits fraction) * unit.femtos) :
    readMagnitude input unit whole fraction =
      if magnitudeBound ≤ ofDigits whole then .error (.invalidNumber input)
      else if magnitudeBound ≤ ofDigits (dropTrailingZeros fraction) * unit.femtos then .error (.overflow input)
      else magnitude (.overflow input) n := by
  obtain ⟨quotient, hsum, hscaled⟩ := exists_quotient_of_exact hn
  have hdvd := Dvd.intro quotient hscaled.symm
  obtain ⟨hlen, hscale⟩ := ten_pow_lt (length_dropTrailingZeros_le hdigit hdvd)
  have hnumerator := (ofDigits_lt (isDigit_of_mem_dropTrailingZeros hdigit)).trans hscale
  have hquotient := Nat.div_eq_of_eq_mul_right (Nat.pow_pos (by decide)) hscaled
  rw [readMagnitude_eq rfl hdigit, Nat.mod_eq_of_lt hlen, if_neg (Nat.not_le.2 hscale), if_neg (Nat.not_le.2 hnumerator), if_pos hdvd, hquotient, ← hsum]
  by_cases hfemtos : magnitudeBound ≤ ofDigits whole * unit.femtos
  · rw [if_pos hfemtos, magnitude_of_le _ (hfemtos.trans (hsum ▸ Nat.le_add_right _ _)), ite_self]
  · rw [if_neg hfemtos]

/-- **Whole femtoseconds are read,** unless the digits after the point are too many femtoseconds as a number of units. -/
theorem readMagnitude_of_exact (hdigit : ∀ c ∈ fraction, c.isDigit = true)
    (hm : m.val * 10 ^ fraction.length = (ofDigits whole * 10 ^ fraction.length + ofDigits fraction) * unit.femtos) :
    readMagnitude input unit whole fraction =
      if ofDigits (dropTrailingZeros fraction) * unit.femtos < magnitudeBound then .ok m
      else .error (.overflow input) := by
  obtain ⟨quotient, hsum, -⟩ := exists_quotient_of_exact hm
  have hunits : ofDigits whole < magnitudeBound :=
    calc ofDigits whole ≤ ofDigits whole * unit.femtos := Nat.le_mul_of_pos_right _ unit.femtos_pos
      _ ≤ m.val := Nat.le_of_add_right_le (Nat.le_of_eq hsum.symm)
      _ < magnitudeBound := m.isLt
  rw [readMagnitude_of_whole hdigit hm, if_neg (Nat.not_le.2 hunits), magnitude_of_lt _ m.isLt]
  simp only [← Nat.not_lt, ite_not]

/-- For anything but days the digits after the point of a whole number of femtoseconds are few. -/
theorem fits_of_exact {n : Nat} (hday : unit ≠ .day) (hdigit : ∀ c ∈ fraction, c.isDigit = true)
    (hn : n * 10 ^ fraction.length = (ofDigits whole * 10 ^ fraction.length + ofDigits fraction) * unit.femtos) :
    ofDigits (dropTrailingZeros fraction) * unit.femtos < magnitudeBound := by
  obtain ⟨quotient, -, hscaled⟩ := exists_quotient_of_exact hn
  exact mul_femtos_lt_of_ne_day hday (length_dropTrailingZeros_le hdigit ⟨_, hscaled⟩)
    (ofDigits_lt (isDigit_of_mem_dropTrailingZeros hdigit))

end Reading

end Time

end SimKernel
