import Mathlib.Tactic.FieldSimp
import Mathlib.Tactic.Positivity
import SimKernel.Json.Forms
import SimKernel.Proofs.Time.Quantity

/-!
# Reading and writing times

* A time that was read is the exact value of the text (`Quantity.exists_value_eq_of_parse`).
* The value of a quantity is read if it is a time other than the least one and, for days, the digits after the point are not
  too many (`Quantity.parse_text_of_value_eq`).
* Every time but the least one is read back from its text (`Time.parse_render`). The magnitude of the least time does not
  fit, so its own text is refused.
-/

namespace SimKernel

open Text Time

/-! ## Values -/

namespace Quantity

/-- The exact size as a statement about natural numbers. -/
theorem size_eq_iff (q : Quantity) (n : Nat) : q.size = n ↔
    n * 10 ^ q.places.length = (ofDigits q.whole * 10 ^ q.places.length + ofDigits q.places) * q.unit.femtos := by
  have hpow : (10 : ℚ) ^ q.places.length ≠ 0 := pow_ne_zero _ (by decide)
  rw [size, ← Nat.cast_inj (R := ℚ)]
  push_cast
  field_simp
  exact eq_comm

theorem size_nonneg (q : Quantity) : 0 ≤ q.size := by
  unfold size
  positivity

theorem abs_value (q : Quantity) : |q.value| = q.size := by
  unfold value
  split
  · rw [abs_neg, abs_of_nonneg q.size_nonneg]
  · rw [abs_of_nonneg q.size_nonneg]

/-- The size of a quantity whose value is a whole number. -/
theorem size_of_value {q : Quantity} {n : Int} (h : q.value = n) : q.size = n.natAbs := by
  rw [← q.abs_value, h, Nat.cast_natAbs, Int.cast_abs]

theorem value_eq_iff (q : Quantity) (m : Magnitude) :
    q.value = (ofMagnitude (q.sign == .minus) m).femtos ↔ q.size = m.val := by
  unfold value ofMagnitude
  cases q.sign with
  | minus => simp
  | absent => simp
  | plus => simp

/-- The size of a quantity is the magnitude of its value, if that is a time other than the least one. -/
theorem exists_magnitude {q : Quantity} {t : Time} (hvalue : q.value = t.femtos) (hmin : t ≠ Time.min) :
    ∃ m : Magnitude, q.size = m.val ∧ ofMagnitude (q.sign == .minus) m = t := by
  have hlow := t.min_le
  have hhigh := t.lt_bound
  have hne : t.femtos ≠ least := fun h => hmin (Time.ext h)
  rw [least] at hne
  have hm : t.femtos.natAbs < magnitudeBound := by unfold magnitudeBound; omega
  have hsize : q.size = t.femtos.natAbs := size_of_value hvalue
  refine ⟨⟨t.femtos.natAbs, hm⟩, hsize, Time.ext ?_⟩
  have := (q.value_eq_iff ⟨t.femtos.natAbs, hm⟩).2 hsize
  rw [hvalue] at this
  exact (Int.cast_injective this).symm

theorem length_places_le (q : Quantity) : q.places.length ≤ q.text.utf8ByteSize := by
  refine Nat.le_trans ?_ (length_le_utf8ByteSize _)
  simp only [places, core, number, List.length_append]
  cases q.fraction with
  | none => exact Nat.zero_le _
  | some f =>
    simp only [pointed_some, Option.getD_some, List.length_cons]
    omega

/-! ## Reading -/

/-- **Reading is exact.** A text that is read as a time is a quantity, whose value is that time, if it is not longer than 32
bits count. -/
theorem exists_value_eq_of_parse {s : String} {t : Time} (hlen : s.utf8ByteSize < UInt32.size) (h : parse s = .ok t) :
    ∃ q : Quantity, q.text = s ∧ q.value = t.femtos := by
  obtain ⟨q, rfl⟩ := exists_of_parse_eq_ok h
  refine ⟨q, rfl, ?_⟩
  rw [q.parse_text] at h
  obtain ⟨m, hm, rfl⟩ := Outcome.map_eq_ok_iff.1 h
  have hplaces := Nat.lt_of_le_of_lt q.length_places_le hlen
  exact (q.value_eq_iff m).2 ((q.size_eq_iff m.val).2 (exact_of_readMagnitude_eq_ok hm hplaces))

theorem exists_value_eq_of_parse_halfMilli :
    (" -.50 ms".utf8ByteSize < UInt32.size ∧ parse " -.50 ms" = .ok ⟨-500_000_000_000, by decide, by decide⟩) ∧
      ∃ q : Quantity, q.text = " -.50 ms" ∧ q.value = (-500_000_000_000 : Int) :=
  have hlen : " -.50 ms".utf8ByteSize < UInt32.size := by decide
  have hparse : parse " -.50 ms" = .ok ⟨-500_000_000_000, by decide, by decide⟩ := by decide +kernel
  ⟨⟨hlen, hparse⟩, exists_value_eq_of_parse hlen hparse⟩

/-- A quantity whose value is a time other than the least one is read as that time, unless the digits after the point are too
many femtoseconds as a whole number of units. -/
theorem parse_text_eq_ite {q : Quantity} {t : Time} (hvalue : q.value = t.femtos) (hmin : t ≠ Time.min) :
    parse q.text = if ofDigits (dropTrailingZeros q.places) * q.unit.femtos < magnitudeBound then .ok t
      else .error (.overflow (String.ofList q.core)) := by
  obtain ⟨m, hsize, rfl⟩ := exists_magnitude hvalue hmin
  rw [q.parse_text, readMagnitude_of_exact q.isDigit_of_mem_places ((q.size_eq_iff m.val).1 hsize)]
  split <;> rfl

/-- **Reading is complete but for long numbers of days.** A quantity whose value is a time other than the least one is read
as that time, however many digits it has, unless the digits after the point are too many femtoseconds as a whole number of
units. Then the answer is that the value is out of range, although it is not. That happens for days only. -/
theorem parse_text_of_value_eq {q : Quantity} {t : Time} (hvalue : q.value = t.femtos) (hmin : t ≠ Time.min) :
    (parse q.text = if ofDigits (dropTrailingZeros q.places) * q.unit.femtos < magnitudeBound then .ok t
      else .error (.overflow (String.ofList q.core))) ∧
    (q.unit ≠ .day → parse q.text = .ok t) := by
  have hparse := parse_text_eq_ite hvalue hmin
  refine ⟨hparse, fun hday => ?_⟩
  obtain ⟨m, hsize, -⟩ := exists_magnitude hvalue hmin
  rw [hparse, if_pos (fits_of_exact hday q.isDigit_of_mem_places ((q.size_eq_iff m.val).1 hsize))]

/-- The quantity written `+01.50 h`. -/
def hourAndHalf : Quantity where
  before := []
  sign := .plus
  whole := ['0', '1']
  fraction := some ['5', '0']
  gap := [' ']
  unit := .hour
  after := []
  isBlank_before := List.all_eq_true.1 (by decide)
  isDigit_whole := List.all_eq_true.1 (by decide)
  isDigit_fraction := List.all_eq_true.1 (by decide)
  isBlank_gap := List.all_eq_true.1 (by decide)
  isBlank_after := List.all_eq_true.1 (by decide)
  has_digit := .inl (by decide)

theorem parse_text_of_value_eq_hourAndHalf :
    let t : Time := ⟨5_400_000_000_000_000_000, by decide, by decide⟩
    (hourAndHalf.value = t.femtos ∧ t ≠ Time.min) ∧ parse "+01.50 h" = .ok t :=
  have hvalue : hourAndHalf.value = (5_400_000_000_000_000_000 : Int) := by decide +kernel
  ⟨⟨hvalue, by decide⟩, (parse_text_of_value_eq (q := hourAndHalf) (t := ⟨5_400_000_000_000_000_000, by decide, by decide⟩)
    hvalue (by decide)).2 (by decide)⟩

/-- A fifth of a day and a little more. -/
def longDays : Quantity where
  before := []
  sign := .absent
  whole := ['0']
  fraction := some "2000000000000000025".toList
  gap := []
  unit := .day
  after := []
  isBlank_before := List.all_eq_true.1 (by decide)
  isDigit_whole := List.all_eq_true.1 (by decide)
  isDigit_fraction := List.all_eq_true.1 (by decide)
  isBlank_gap := List.all_eq_true.1 (by decide)
  isBlank_after := List.all_eq_true.1 (by decide)
  has_digit := .inl (by decide)

/-- A whole number of femtoseconds far inside the range that is refused as out of range. -/
theorem parse_longDays : longDays.text = "0.2000000000000000025d" ∧ longDays.value = (17_280_000_000_000_000_216 : Int) ∧
    parse longDays.text = .error (.overflow "0.2000000000000000025d") := by
  decide +kernel

end Quantity

/-! ## Writing -/

namespace Time

/-- The unit in which a time is written. -/
def writtenUnit (t : Time) : TimeUnit := if t.isZero then .second else t.naturalUnit

/-- The parts of the text of a time. -/
def quantity (t : Time) : Quantity where
  before := []
  sign := if t.femtos < 0 then .minus else .absent
  whole := Nat.toDigits 10 (t.femtos.natAbs / t.writtenUnit.femtos)
  fraction := none
  gap := []
  unit := t.writtenUnit
  after := []
  isBlank_before := by simp
  isDigit_whole := fun _ => Nat.isDigit_of_mem_toDigits (by decide) (by decide)
  isDigit_fraction := by simp
  isBlank_gap := by simp
  isBlank_after := by simp
  has_digit := .inl Nat.toDigits_ne_nil

theorem writtenUnit_dvd (t : Time) : (t.writtenUnit.femtos : Int) ∣ t.femtos := by
  unfold writtenUnit
  split
  case isTrue hzero =>
    rw [show t.femtos = 0 by simpa [isZero] using hzero]
    exact dvd_zero _
  case isFalse => exact t.naturalUnit_dvd

theorem inUnits_neg_iff (t : Time) : t.inUnits t.writtenUnit < 0 ↔ t.femtos < 0 := by
  have hpos : (0 : Int) < t.writtenUnit.femtos := Int.ofNat_lt.2 t.writtenUnit.femtos_pos
  rw [← Int.mul_lt_mul_right hpos, Int.zero_mul, inUnits, Int.tdiv_mul_cancel t.writtenUnit_dvd]

theorem text_quantity (t : Time) : t.quantity.text = t.render := by
  by_cases hzero : t.isZero = true
  · obtain rfl : t = Time.zero := Time.ext (beq_iff_eq.1 hzero)
    rfl
  · have hunit : t.writtenUnit = t.naturalUnit := if_neg hzero
    have hwhole : (t.inUnits t.writtenUnit).natAbs = t.femtos.natAbs / t.writtenUnit.femtos := Int.natAbs_tdiv _ _
    have hsign : t.quantity.sign.text = if t.inUnits t.writtenUnit < 0 then ['-'] else [] := by
      simp only [quantity, t.inUnits_neg_iff]
      split <;> rfl
    rw [render, if_neg hzero, ← hunit, showInt, ← hsign, hwhole, ← String.ofList_toList (s := t.writtenUnit.suffix),
      ← String.ofList_append]
    simp [Quantity.text, Quantity.core, Quantity.number, quantity]

theorem value_quantity (t : Time) : t.quantity.value = t.femtos := by
  have hwhole : t.quantity.size = t.femtos.natAbs := by
    have hdvd : t.writtenUnit.femtos ∣ t.femtos.natAbs := Int.natCast_dvd.1 t.writtenUnit_dvd
    rw [Quantity.size_eq_iff]
    simp [quantity, Quantity.places, ofDigits_toDigits, Nat.div_mul_cancel hdvd]
  have hsign : t.quantity.sign = .minus ↔ t.femtos < 0 := by
    simp only [quantity]
    split <;> simp_all
  unfold Quantity.value
  rw [hwhole, Nat.cast_natAbs, Int.cast_abs]
  simp only [hsign]
  split
  case isTrue hneg => rw [abs_of_neg (Int.cast_lt_zero.2 hneg), neg_neg]
  case isFalse hneg => rw [abs_of_nonneg (Int.cast_nonneg (Int.not_lt.1 hneg))]

/-- **Every time but the least one is read back from its text,** also where it stands as a JSON string. The digits of the
least time are no number of 128 bits without their sign. -/
theorem parse_render (t : Time) :
    parse t.render = (if t = Time.min then .error (.invalidNumber t.render) else .ok t) ∧
      ofJson? t.toJson = if t = Time.min then none else some t := by
  have hparse : parse t.render = if t = Time.min then .error (.invalidNumber t.render) else .ok t := by
    by_cases hmin : t = Time.min
    · subst hmin
      rfl
    · have hfits : ofDigits (dropTrailingZeros t.quantity.places) * t.quantity.unit.femtos < magnitudeBound := by
        rw [show dropTrailingZeros t.quantity.places = [] from rfl, ofDigits_nil, Nat.zero_mul]
        decide
      rw [← t.text_quantity, Quantity.parse_text_eq_ite t.value_quantity hmin, if_pos hfits, if_neg hmin]
  refine ⟨hparse, ?_⟩
  have hjson : ofJson? t.toJson = (parse t.render).toOption := by
    simp [ofJson?, toJson, Json.ofText, Json.text?]
  rw [hjson, hparse]
  split <;> rfl

theorem parse_render_min :
    parse Time.min.render = .error (.invalidNumber "-170141183460469231731687303715884105728fs") := by
  decide +kernel

end Time

end SimKernel
