import Mathlib.Algebra.Order.Field.Rat
import SimKernel.Proofs.Time.Magnitude

/-!
# Quantities

The texts that stand for a time: an optional sign, a decimal number with at least one digit and at most one point, and a
unit, with blanks around the whole and before the unit. Such a text has an exact value, a rational number of femtoseconds.

* A quantity is read as its sign, its unit and its digits before and after the point (`Quantity.parse_text`).
* Only quantities are read (`Quantity.exists_of_parse_eq_ok`).
-/

namespace SimKernel

/-- The sign of a number as it is written. -/
inductive Sign where
  | absent
  | plus
  | minus
deriving DecidableEq

def Sign.text : Sign → List Char
  | absent => []
  | plus => ['+']
  | minus => ['-']

/-- The parts of a text that stands for a time. -/
structure Quantity where
  before : List Char
  sign : Sign
  whole : List Char
  /-- What follows the point, if there is one. -/
  fraction : Option (List Char)
  gap : List Char
  unit : TimeUnit
  after : List Char
  isBlank_before : ∀ c ∈ before, Text.isBlank c = true
  isDigit_whole : ∀ c ∈ whole, c.isDigit = true
  isDigit_fraction : ∀ c ∈ fraction.getD [], c.isDigit = true
  isBlank_gap : ∀ c ∈ gap, Text.isBlank c = true
  isBlank_after : ∀ c ∈ after, Text.isBlank c = true
  has_digit : whole ≠ [] ∨ fraction.getD [] ≠ []

namespace Quantity

open Text Time

/-- The digits after the point. -/
def places (q : Quantity) : List Char := q.fraction.getD []

/-- The point, if there is one, with the digits after it. -/
def pointed : Option (List Char) → List Char
  | none => []
  | some fraction => '.' :: fraction

@[simp] theorem pointed_none : pointed none = [] := rfl

@[simp] theorem pointed_some (fraction : List Char) : pointed (some fraction) = '.' :: fraction := rfl

/-- The number without its sign. -/
def number (q : Quantity) : List Char := q.whole ++ pointed q.fraction

/-- The text without blanks around it. -/
def core (q : Quantity) : List Char :=
  q.sign.text ++ (q.number ++ (q.gap ++ q.unit.suffix.toList))

def text (q : Quantity) : String :=
  String.ofList (q.before ++ q.core ++ q.after)

/-- The number of femtoseconds without its sign. -/
def size (q : Quantity) : ℚ :=
  (ofDigits q.whole + ofDigits q.places / 10 ^ q.places.length) * q.unit.femtos

/-- The number of femtoseconds. -/
def value (q : Quantity) : ℚ :=
  if q.sign = .minus then -q.size else q.size

/-! ## Classes of characters -/

/-- No character of a number is a blank. -/
theorem isBlank_of_isNumberChar {c : Char} (h : isNumberChar c = true) : isBlank c = false := by
  have hc : 46 ≤ c.toNat ∧ c.toNat ≤ 57 := by
    rcases Bool.or_eq_true_iff.1 h with h | h
    · have := Char.isDigit_iff_toNat.1 h
      rw [show '0'.toNat = 48 from rfl, show '9'.toNat = 57 from rfl] at this
      omega
    · rw [beq_iff_eq.1 h]
      decide
  simp only [isBlank, Bool.or_eq_false_iff, Bool.and_eq_false_iff, decide_eq_false_iff_not, beq_eq_false_iff_ne]
  omega

theorem isNumberChar_of_isBlank {c : Char} (h : isBlank c = true) : isNumberChar c = false := by
  by_contra hn
  rw [isBlank_of_isNumberChar (by simpa using hn)] at h
  cases h

/-- A suffix is some letters. -/
theorem exists_suffix_eq (unit : TimeUnit) : ∃ c s, unit.suffix.toList = c :: s ∧ isNumberChar c = false ∧
    isBlank c = false ∧ ∀ d ∈ (c :: s).getLast?, isBlank d = false := by
  cases unit <;> exact ⟨_, _, rfl, by decide, by decide, by rintro _ ⟨⟩; decide⟩

/-! ## The parts of a quantity -/

variable (q : Quantity)

theorem isDigit_of_mem_places : ∀ c ∈ q.places, c.isDigit = true := q.isDigit_fraction

/-- The number consists of digits and a point. -/
theorem isNumberChar_of_mem_number : ∀ c ∈ q.number, isNumberChar c = true := by
  have hdigit : ∀ c : Char, c.isDigit = true → isNumberChar c = true := fun c h => by simp [isNumberChar, h]
  have hfraction := q.isDigit_fraction
  intro c hc
  rcases List.mem_append.1 hc with hc | hc
  · exact hdigit c (q.isDigit_whole c hc)
  · cases hf : q.fraction with
    | none => simp [hf] at hc
    | some f =>
      rw [hf] at hfraction
      rw [hf, pointed_some] at hc
      rcases List.mem_cons.1 hc with rfl | hc
      · rfl
      · exact hdigit c (hfraction c hc)

theorem number_ne_nil : q.number ≠ [] := by
  have hdigit := q.has_digit
  rw [number]
  cases hf : q.fraction with
  | none => simpa [hf] using hdigit
  | some f => simp

/-- The number is split at its one point. -/
theorem splitPoint_number : splitPoint q.number = (q.whole, q.places) := by
  have hwhole : ∀ c ∈ q.whole, (c != '.') = true := by
    rintro c hc
    refine bne_iff_ne.2 ?_
    rintro rfl
    exact absurd (q.isDigit_whole _ hc) (by decide)
  have hpoint : ∀ c ∈ (pointed q.fraction).head?, (c != '.') = false := by
    cases q.fraction <;> simp
  rw [splitPoint, number, places, takeWhile_append_of_head hwhole hpoint, dropWhile_append_of_head hwhole hpoint]
  cases q.fraction <;> rfl

theorem splitSign_core : splitSign q.core = (q.sign == .minus, q.number ++ (q.gap ++ q.unit.suffix.toList)) := by
  rw [core]
  cases q.sign with
  | minus => rfl
  | plus => rfl
  | absent =>
    obtain ⟨c, s, hs⟩ := List.exists_cons_of_ne_nil q.number_ne_nil
    have hc := q.isNumberChar_of_mem_number c (hs ▸ List.mem_cons_self)
    rw [hs, Sign.text, List.nil_append, List.cons_append]
    unfold splitSign
    split
    case h_1 heq => cases heq; exact absurd hc (by decide)
    case h_2 heq => cases heq; exact absurd hc (by decide)
    case h_3 => rfl

theorem trim_core : trim (q.before ++ q.core ++ q.after) = q.core := by
  obtain ⟨l, u, hu, -, -, hlast⟩ := exists_suffix_eq q.unit
  obtain ⟨c, s, hs⟩ := List.exists_cons_of_ne_nil q.number_ne_nil
  have hc := isBlank_of_isNumberChar (q.isNumberChar_of_mem_number c (hs ▸ List.mem_cons_self))
  refine trim_append q.isBlank_before ?_ ?_ q.isBlank_after ?_
  · intro d hd
    rw [core, hs] at hd
    cases hsign : q.sign with
    | absent => rw [hsign] at hd; cases hd; exact hc
    | plus => rw [hsign] at hd; cases hd; rfl
    | minus => rw [hsign] at hd; cases hd; rfl
  · rw [core, hu, ← List.append_assoc, ← List.append_assoc, List.getLast?_append_of_ne_nil _ (by simp)]
    exact hlast
  · rw [core, hs]
    simp

/-- What follows the number begins with a blank or a letter. -/
theorem head_rest : ∀ c ∈ (q.gap ++ q.unit.suffix.toList).head?, isNumberChar c = false := by
  obtain ⟨l, u, hu, hl, -, -⟩ := exists_suffix_eq q.unit
  rw [hu]
  cases hg : q.gap with
  | nil => rintro c ⟨⟩; exact hl
  | cons b g => rintro c ⟨⟩; exact isNumberChar_of_isBlank (q.isBlank_gap b (hg ▸ List.mem_cons_self))

theorem trim_rest : trim (q.gap ++ q.unit.suffix.toList) = q.unit.suffix.toList := by
  obtain ⟨l, u, hu, -, hl, hlast⟩ := exists_suffix_eq q.unit
  have htrim : trim (q.gap ++ l :: u ++ []) = l :: u :=
    trim_append q.isBlank_gap (by rintro c ⟨⟩; exact hl) hlast (by simp) (by simp)
  rwa [List.append_nil, ← hu] at htrim

/-- **A quantity is read as its parts.** -/
theorem parse_text : parse q.text =
    (readMagnitude (String.ofList q.core) q.unit q.whole q.places).map (ofMagnitude (q.sign == .minus)) := by
  have hcore : q.core.isEmpty = false := by simp [core, q.number_ne_nil]
  have hrest : (q.gap ++ q.unit.suffix.toList).isEmpty = false := by
    obtain ⟨l, u, hu, -⟩ := exists_suffix_eq q.unit
    simp [hu]
  have hdigit : (q.whole.isEmpty && q.places.isEmpty) = false := by
    rcases q.has_digit with h | h
    · simp [h]
    · simp [places, h]
  simp only [parse, text, String.toList_ofList, q.trim_core, hcore, Bool.false_eq_true, if_false, readTrimmed,
    q.splitSign_core, takeWhile_append_of_head q.isNumberChar_of_mem_number q.head_rest,
    dropWhile_append_of_head q.isNumberChar_of_mem_number q.head_rest, hrest, q.trim_rest, String.ofList_toList,
    TimeUnit.ofSuffix?_suffix, q.splitPoint_number, hdigit]

/-! ## Only quantities are read -/

/-- A text has a sign before the rest, or none. -/
theorem exists_sign (s : List Char) : ∃ sign : Sign, s = sign.text ++ (splitSign s).2 := by
  unfold splitSign
  split
  · exact ⟨.minus, rfl⟩
  · exact ⟨.plus, rfl⟩
  · exact ⟨.absent, rfl⟩

/-- The parts of a number, the second of them without its point. -/
theorem exists_fraction (s : List Char) : ∃ fraction : Option (List Char), fraction.getD [] = (splitPoint s).2 ∧
    s = (splitPoint s).1 ++ pointed fraction := by
  have hsplit : s.takeWhile (· != '.') ++ s.dropWhile (· != '.') = s := List.takeWhile_append_dropWhile
  simp only [splitPoint]
  cases hd : s.dropWhile (· != '.') with
  | nil => exact ⟨none, rfl, by rw [hd] at hsplit; exact hsplit.symm⟩
  | cons c f =>
    have hpoint := List.dropWhile_get_zero_not (· != '.') s (by rw [hd]; exact Nat.succ_pos _)
    have hc : c = '.' := by simpa [hd] using hpoint
    exact ⟨some f, rfl, by rw [hd, hc] at hsplit; exact hsplit.symm⟩

/-- Digits before the point are all that is before the point. -/
theorem isDigit_of_mem_splitPoint {s : List Char} (h : ∀ c ∈ s, isNumberChar c = true) :
    ∀ c ∈ (splitPoint s).1, c.isDigit = true := by
  intro c hc
  have hnumber := h c ((List.takeWhile_prefix _).subset hc)
  have hpoint : (c != '.') = true := List.mem_takeWhile_imp (p := (· != '.')) hc
  simpa [isNumberChar, bne_iff_ne.1 hpoint] using hnumber

/-- What is read is a number after the sign and a unit after the number. -/
theorem parts_of_parse_eq_ok {s : String} {t : Time} (h : parse s = .ok t) :
    ∃ number rest, ∃ unit : TimeUnit, (splitSign (trim s.toList)).2 = number ++ rest ∧
      (∀ c ∈ number, isNumberChar c = true) ∧ trim rest = unit.suffix.toList ∧
      ((splitPoint number).1 ≠ [] ∨ (splitPoint number).2 ≠ []) ∧ ∀ c ∈ (splitPoint number).2, c.isDigit = true := by
  simp only [parse] at h
  split at h
  case isTrue => cases h
  case isFalse =>
    simp only [readTrimmed] at h
    generalize (splitSign (trim s.toList)).2 = body at h ⊢
    split at h
    case isTrue => cases h
    case isFalse =>
      split at h
      case h_1 => cases h
      case h_2 unit hunit =>
        have hsuffix := congrArg String.toList (TimeUnit.suffix_of_ofSuffix? hunit)
        rw [String.toList_ofList] at hsuffix
        split at h
        case isTrue => cases h
        case isFalse hdigit =>
          obtain ⟨m, hm, -⟩ := Outcome.map_eq_ok_iff.1 h
          refine ⟨_, _, unit, List.takeWhile_append_dropWhile.symm, fun c => List.mem_takeWhile_imp, hsuffix.symm, ?_,
            isDigit_of_readMagnitude_eq_ok hm⟩
          simpa [or_iff_not_imp_left] using hdigit

/-- **Only quantities are read.** -/
theorem exists_of_parse_eq_ok {s : String} {t : Time} (h : parse s = .ok t) : ∃ q : Quantity, q.text = s := by
  obtain ⟨number, rest, unit, hbody, hclass, hsuffix, hdigit, hplaces⟩ := parts_of_parse_eq_ok h
  obtain ⟨before, after, hs, hbefore, hafter⟩ := exists_blanks_trim s.toList
  obtain ⟨sign, hsign⟩ := exists_sign (trim s.toList)
  obtain ⟨gap, tail, hrest, hgap, htail⟩ := exists_blanks_trim rest
  obtain ⟨fraction, hfraction, hnumber⟩ := exists_fraction number
  rw [← hfraction] at hdigit hplaces
  refine ⟨⟨before, sign, (splitPoint number).1, fraction, gap, unit, tail ++ after, hbefore,
    isDigit_of_mem_splitPoint hclass, hplaces, hgap, ?_, hdigit⟩, ?_⟩
  · exact fun c hc => (List.mem_append.1 hc).elim (htail c) (hafter c)
  · have htext : before ++ (sign.text ++ ((splitPoint number).1 ++ pointed fraction ++
        (gap ++ unit.suffix.toList))) ++ (tail ++ after) = s.toList := by
      rw [← hnumber, ← hsuffix, hs, hsign, hbody]
      conv_rhs => rw [hrest]
      simp only [List.append_assoc]
    exact (congrArg String.ofList htext).trans String.ofList_toList

end Quantity

end SimKernel
