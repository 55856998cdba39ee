import SimKernel.Proofs.Time.Reading

/-!
# Which error a quantity is refused with

A quantity is refused as out of range, as more precise than a femtosecond, or as no number (`readMagnitude_eq_error`), and never
for its form. These errors do not always tell what is wrong with the value:

* A number whose digits before the point are no magnitude is refused as no number, although it is one that is out of range.
* A value that is not a whole number of femtoseconds is refused as out of range, although it is not, if the digits after the point
  are too many femtoseconds as a whole number of units, unless they are so many that the power of ten is no magnitude either.

Apart from that, whole numbers of femtoseconds beyond the range are out of range, and what is not a whole number is too precise
(`Quantity.errors_of_parse_text`).
-/

namespace SimKernel

open Text Time

namespace Time

section Refusal

variable {input : String} {unit : TimeUnit} {whole fraction : List Char} {e : TimeError}

theorem readMagnitude_eq_error (hdigit : ∀ c ∈ fraction, c.isDigit = true)
    (h : readMagnitude input unit whole fraction = .error e) :
    e = .invalidNumber input ∨ e = .overflow input ∨ e = .tooPrecise input := by
  rw [readMagnitude_eq rfl hdigit] at h
  split_ifs at h
  · cases h
    exact .inl rfl
  · cases h
    exact .inr (.inl rfl)
  · cases h
    exact .inr (.inr rfl)
  · cases h
    exact .inl rfl
  · cases h
    exact .inr (.inl rfl)
  · exact .inr (.inl (magnitude_eq_error_iff.1 h).2)
  · cases h
    exact .inr (.inr rfl)

/-- The steps of reading, if there are no more digits after the point than 32 bits count. These digits are less than the power
of ten, so that they are a magnitude if it is one. -/
theorem readMagnitude_eq_of_length_lt {decimals : List Char} (hlen : fraction.length < UInt32.size)
    (hdecimals : dropTrailingZeros fraction = decimals) (hdigit : ∀ c ∈ fraction, c.isDigit = true) :
    readMagnitude input unit whole fraction =
      if magnitudeBound ≤ ofDigits whole then .error (.invalidNumber input)
      else if magnitudeBound ≤ ofDigits whole * unit.femtos then .error (.overflow input)
      else if magnitudeBound ≤ 10 ^ decimals.length then .error (.tooPrecise input)
      else if magnitudeBound ≤ ofDigits decimals * unit.femtos then .error (.overflow input)
      else if 10 ^ decimals.length ∣ ofDigits decimals * unit.femtos then
        magnitude (.overflow input) (ofDigits whole * unit.femtos + ofDigits decimals * unit.femtos / 10 ^ decimals.length)
      else .error (.tooPrecise input) := by
  subst hdecimals
  obtain ⟨k, hk, -⟩ := exists_dropTrailingZeros fraction
  have hlt := ofDigits_lt (isDigit_of_mem_dropTrailingZeros hdigit)
  rw [readMagnitude_eq rfl hdigit, Nat.mod_eq_of_lt (by omega)]
  by_cases hscale : magnitudeBound ≤ 10 ^ (dropTrailingZeros fraction).length
  · rw [if_pos hscale, if_pos hscale]
  · have hnumerator : ¬ magnitudeBound ≤ ofDigits (dropTrailingZeros fraction) := by omega
    rw [if_neg hscale, if_neg hscale, if_neg hnumerator]

theorem le_of_readMagnitude_eq_invalidNumber (hlen : fraction.length < UInt32.size)
    (hdigit : ∀ c ∈ fraction, c.isDigit = true)
    (h : readMagnitude input unit whole fraction = .error (.invalidNumber input)) : magnitudeBound ≤ ofDigits whole := by
  by_contra hwhole
  rw [readMagnitude_eq_of_length_lt hlen rfl hdigit, if_neg hwhole] at h
  split_ifs at h
  · cases h
  · cases h
  · cases h
  · cases (magnitude_eq_error_iff.1 h).2
  · cases h

end Refusal

end Time

namespace Quantity

variable {q : Quantity}

/-- The digits before the point are no more than the size. -/
theorem whole_le_size (q : Quantity) : (ofDigits q.whole * q.unit.femtos : ℕ) ≤ q.size := by
  have hplaces : (0 : ℚ) ≤ ofDigits q.places / 10 ^ q.places.length := by positivity
  unfold size
  push_cast
  exact mul_le_mul_of_nonneg_right (le_add_of_nonneg_right hplaces) (Nat.cast_nonneg _)

theorem whole_lt_of_size_le (h : q.size ≤ greatest) : ofDigits q.whole * q.unit.femtos < magnitudeBound := by
  have hle : ((ofDigits q.whole * q.unit.femtos : ℕ) : ℤ) ≤ greatest := by exact_mod_cast q.whole_le_size.trans h
  exact Int.ofNat_lt.1 (hle.trans_lt (by decide))

/-- A quantity whose size is a whole number has a whole number as its value. -/
theorem exists_value_eq_of_size {n : Nat} (h : q.size = n) : ∃ m : Int, q.value = m := by
  unfold value
  split
  · exact ⟨-n, by rw [h]; push_cast; rfl⟩
  · exact ⟨n, by rw [h]; rfl⟩

theorem parse_text_eq_error {e : TimeError}
    (h : readMagnitude (String.ofList q.core) q.unit q.whole q.places = .error e) : parse q.text = .error e := by
  rw [q.parse_text, Outcome.map_eq_error_iff.2 h]

/-- A whole number of femtoseconds beyond the range is out of range if the digits before the point are a magnitude. -/
theorem parse_text_of_greatest_lt {n : Int} (hvalue : q.value = n) (hrange : greatest < |n|)
    (hwhole : ofDigits q.whole < magnitudeBound) : parse q.text = .error (.overflow (String.ofList q.core)) := by
  have hexact := (q.size_eq_iff n.natAbs).1 (size_of_value hvalue)
  have hlarge : magnitudeBound ≤ n.natAbs := by
    rw [Int.abs_eq_natAbs, greatest] at hrange
    unfold magnitudeBound
    omega
  refine parse_text_eq_error ?_
  rw [readMagnitude_of_whole q.isDigit_of_mem_places hexact, if_neg (Nat.not_le.2 hwhole), magnitude_of_le _ hlarge, ite_self]

/-- What is not a whole number of femtoseconds is too precise, unless the digits after the point, but not the power of ten, are
too great for a magnitude. -/
theorem parse_text_of_not_whole (hlen : q.places.length < UInt32.size) (hvalue : ∀ n : Int, q.value ≠ n)
    (hrange : |q.value| ≤ greatest) :
    parse q.text = .error (
      if 10 ^ (dropTrailingZeros q.places).length < magnitudeBound ∧
          magnitudeBound ≤ ofDigits (dropTrailingZeros q.places) * q.unit.femtos then .overflow (String.ofList q.core)
      else .tooPrecise (String.ofList q.core)) := by
  rw [q.abs_value] at hrange
  have hfemtos := whole_lt_of_size_le hrange
  have hwhole : ofDigits q.whole < magnitudeBound := (Nat.le_mul_of_pos_right _ q.unit.femtos_pos).trans_lt hfemtos
  have hsize (n : Nat) : q.size ≠ n := fun h => (exists_value_eq_of_size h).elim hvalue
  have hdvd : ¬ 10 ^ (dropTrailingZeros q.places).length ∣ ofDigits (dropTrailingZeros q.places) * q.unit.femtos :=
    fun ⟨_, hquotient⟩ => hsize _ ((q.size_eq_iff _).2 (exact_of_quotient hquotient))
  refine parse_text_eq_error ?_
  rw [readMagnitude_eq_of_length_lt hlen rfl q.isDigit_of_mem_places, if_neg (Nat.not_le.2 hwhole),
    if_neg (Nat.not_le.2 hfemtos), if_neg hdvd]
  by_cases hscale : magnitudeBound ≤ 10 ^ (dropTrailingZeros q.places).length
  · rw [if_pos hscale, if_neg fun h => Nat.not_lt.2 hscale h.1]
  · rw [if_neg hscale]
    by_cases hscaled : magnitudeBound ≤ ofDigits (dropTrailingZeros q.places) * q.unit.femtos
    · rw [if_pos hscaled, if_pos ⟨Nat.not_le.1 hscale, hscaled⟩]
    · rw [if_neg hscaled, if_neg fun h => hscaled h.2]

/-- **Which error a quantity is refused with.** It is one of three, about the text without blanks around it. Digits before the
point that are no magnitude make it no number, and nothing else does. Otherwise a whole number of femtoseconds beyond the
range is out of range, and what lies inside and is not a whole number is too precise; but the latter is called out of range if
the digits after the point, as a whole number of units, are no magnitude while the power of ten is one. Where it is said, there
are no more digits after the point than 32 bits count. -/
theorem errors_of_parse_text (q : Quantity) :
    let input := String.ofList q.core
    let decimals := dropTrailingZeros q.places
    (∀ e, parse q.text = .error e → e = .invalidNumber input ∨ e = .overflow input ∨ e = .tooPrecise input) ∧
    (magnitudeBound ≤ ofDigits q.whole → parse q.text = .error (.invalidNumber input)) ∧
    (q.places.length < UInt32.size → parse q.text = .error (.invalidNumber input) → magnitudeBound ≤ ofDigits q.whole) ∧
    (∀ n : Int, q.value = n → greatest < |n| → ofDigits q.whole < magnitudeBound →
      parse q.text = .error (.overflow input)) ∧
    (q.places.length < UInt32.size → (∀ n : Int, q.value ≠ n) → |q.value| ≤ greatest →
      parse q.text = .error (
        if 10 ^ decimals.length < magnitudeBound ∧ magnitudeBound ≤ ofDigits decimals * q.unit.femtos then .overflow input
        else .tooPrecise input)) := by
  intro input decimals
  refine ⟨?_, ?_, ?_, ?_, ?_⟩
  · intro e h
    rw [q.parse_text, Outcome.map_eq_error_iff] at h
    exact readMagnitude_eq_error q.isDigit_of_mem_places h
  · intro h
    exact parse_text_eq_error (by rw [readMagnitude_eq rfl q.isDigit_of_mem_places, if_pos h])
  · intro hlen h
    rw [q.parse_text, Outcome.map_eq_error_iff] at h
    exact le_of_readMagnitude_eq_invalidNumber hlen q.isDigit_of_mem_places h
  · exact fun n hvalue hrange hwhole => parse_text_of_greatest_lt hvalue hrange hwhole
  · exact parse_text_of_not_whole

example : parse "0.5fs" = .error (.tooPrecise "0.5fs") ∧
    parse "-170141183460469231731687303715884105.729ps" =
      .error (.overflow "-170141183460469231731687303715884105.729ps") := by
  decide +kernel

theorem isBlank_of_mem_nil : ∀ c ∈ ([] : List Char), isBlank c = true := List.forall_mem_nil _

/-- A number of units without a sign and without blanks. -/
def bare (whole : List Char) (fraction : Option (List Char)) (unit : TimeUnit)
    (h : whole ≠ [] ∧ whole.all Char.isDigit = true ∧ (fraction.getD []).all Char.isDigit = true) : Quantity where
  before := []
  sign := .absent
  whole := whole
  fraction := fraction
  gap := []
  unit := unit
  after := []
  isBlank_before := isBlank_of_mem_nil
  isDigit_whole := List.all_eq_true.1 h.2.1
  isDigit_fraction := List.all_eq_true.1 h.2.2
  isBlank_gap := isBlank_of_mem_nil
  isBlank_after := isBlank_of_mem_nil
  has_digit := .inl h.1

/-- A little less than an hour, with twenty digits after the point. -/
def almostAnHour : Quantity :=
  bare ['0'] (some (List.replicate 20 '9')) .hour (by decide)

/-- A whole number of nanoseconds that no time has. -/
def tooManyNanos : Quantity :=
  bare "170141183460469231731687303715884105728".toList none .nanosecond (by decide)

/-- A value inside the range that is called out of range, and one beyond it that is called no number. -/
theorem parse_almostAnHour_tooManyNanos :
    almostAnHour.text = "0.99999999999999999999h" ∧ (∀ n : Int, almostAnHour.value ≠ n) ∧ |almostAnHour.value| ≤ greatest ∧
      parse almostAnHour.text = .error (.overflow "0.99999999999999999999h") ∧
    tooManyNanos.text = "170141183460469231731687303715884105728ns" ∧
      tooManyNanos.value = (170141183460469231731687303715884105728000000 : Int) ∧
      greatest < 170141183460469231731687303715884105728000000 ∧
      parse tooManyNanos.text = .error (.invalidNumber "170141183460469231731687303715884105728ns") := by
  refine ⟨by decide +kernel, ?_, by decide +kernel, by decide +kernel, by decide +kernel, by decide +kernel, by decide,
    by decide +kernel⟩
  -- its denominator is not one
  intro n hn
  exact absurd ((congrArg Rat.den hn).trans (Rat.den_intCast n)) (by decide +kernel)

end Quantity

end SimKernel
