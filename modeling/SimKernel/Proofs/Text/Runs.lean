import Mathlib.Algebra.Group.Nat.Defs
import Mathlib.Data.List.DropRight
import SimKernel.Text.Blank
import SimKernel.Text.Digits

/-!
# Runs of blanks and digits

* Texts are cut where a run of characters of one class ends (`takeWhile_append_of_head`, `dropWhile_append_of_head`), which
  is where another text of other characters follows (`takeWhile_append_right_of_head`).
* Blanks around a text are taken off, and nothing else is (`trim_append`, `exists_blanks_trim`).
* A run of digits stands for a number below the power of ten for its length (`ofDigits_append`, `ofDigits_lt`), the digits
  of a number stand for that number (`ofDigits_toDigits`), and without the zeros at its end a run stands for no multiple
  of ten (`not_ten_dvd_ofDigits`).
-/

namespace SimKernel.Text

/-- No character takes less than one byte. -/
theorem length_le_utf8ByteSize (s : List Char) : s.length ≤ (String.ofList s).utf8ByteSize := by
  induction s with
  | nil => exact Nat.zero_le _
  | cons c s ih =>
    have := c.utf8Size_pos
    rw [String.ofList_cons, String.utf8ByteSize_append, String.utf8ByteSize_singleton, List.length_cons]
    omega

/-! ## Runs of one class -/

section Class

variable {p : Char → Bool} {a b s : List Char}

theorem dropWhile_eq_self_of_head (h : ∀ c ∈ s.head?, p c = false) : s.dropWhile p = s := by
  cases s with
  | nil => rfl
  | cons c s => exact List.dropWhile_cons_of_neg (by simp [h c rfl])

/-- A run ends where the rest begins with something else. -/
theorem takeWhile_append_of_head (ha : ∀ c ∈ a, p c = true) (hb : ∀ c ∈ b.head?, p c = false) :
    (a ++ b).takeWhile p = a := by
  rw [List.takeWhile_append_of_pos ha]
  cases b with
  | nil => exact List.append_nil a
  | cons c b => rw [List.takeWhile_cons_of_neg (by simp [hb c rfl]), List.append_nil]

theorem dropWhile_append_of_head (ha : ∀ c ∈ a, p c = true) (hb : ∀ c ∈ b.head?, p c = false) :
    (a ++ b).dropWhile p = b := by
  rw [List.dropWhile_append_of_pos ha, dropWhile_eq_self_of_head hb]

/-- A run ends at a character of another class, whatever stands before it. -/
theorem takeWhile_append_right_of_head (hb : ∀ c ∈ b.head?, p c = false) : (s ++ b).takeWhile p = s.takeWhile p := by
  induction s with
  | nil => exact takeWhile_append_of_head (a := []) nofun hb
  | cons c s ih => rw [List.cons_append, List.takeWhile_cons, List.takeWhile_cons, ih]

theorem dropWhile_append_right_of_head (hb : ∀ c ∈ b.head?, p c = false) : (s ++ b).dropWhile p = s.dropWhile p ++ b := by
  induction s with
  | nil => exact dropWhile_eq_self_of_head hb
  | cons c s ih =>
    rw [List.cons_append, List.dropWhile_cons, List.dropWhile_cons, ih]
    split <;> rfl

end Class

/-! ## Blanks -/

section Blanks

variable {before s after : List Char}

/-- Blanks at both ends are cut off, and none within. -/
theorem trim_append (hbefore : ∀ c ∈ before, isBlank c = true) (hfirst : ∀ c ∈ s.head?, isBlank c = false)
    (hlast : ∀ c ∈ s.getLast?, isBlank c = false) (hafter : ∀ c ∈ after, isBlank c = true) (hne : s ≠ []) :
    trim (before ++ s ++ after) = s := by
  have hstart : ∀ c ∈ (s ++ after).head?, isBlank c = false := by
    rwa [List.head?_append_of_ne_nil _ hne]
  have hstop : ∀ c ∈ s.reverse.head?, isBlank c = false := by
    rwa [List.head?_reverse]
  rw [trim, List.append_assoc, dropWhile_append_of_head hbefore hstart, trimRight, List.reverse_append,
    dropWhile_append_of_head (by simpa using hafter) hstop, List.reverse_reverse]

/-- A text is what is left of it without blanks at its ends, with blanks on both sides. -/
theorem exists_blanks_trim (s : List Char) : ∃ before after, s = before ++ trim s ++ after ∧
    (∀ c ∈ before, isBlank c = true) ∧ ∀ c ∈ after, isBlank c = true := by
  refine ⟨s.takeWhile isBlank, (s.dropWhile isBlank).rtakeWhile isBlank, ?_, ?_, ?_⟩
  · have hright : trim s ++ (s.dropWhile isBlank).rtakeWhile isBlank = s.dropWhile isBlank :=
      List.rdropWhile_append_rtakeWhile
    rw [List.append_assoc, hright, List.takeWhile_append_dropWhile]
  · exact fun c => List.mem_takeWhile_imp
  · exact fun c => List.mem_rtakeWhile_imp

end Blanks

/-! ## Digits -/

section Digits

variable {s : List Char}

/-- The digits that follow move those before them up. -/
theorem ofDigits_append (s t : List Char) : ofDigits (s ++ t) = ofDigits s * 10 ^ t.length + ofDigits t := by
  have happ := Nat.ofDigitChars_append (b := 10) (l := s) (m := t) 0
  rwa [Nat.ofDigitChars_eq_ofDigitChars_zero (l := t), Nat.mul_comm] at happ

theorem digitValue_lt {c : Char} (h : c.isDigit = true) : digitValue c < 10 := by
  have := (Char.isDigit_iff_toNat.1 h).2
  rw [show '9'.toNat = 57 from rfl] at this
  rw [digitValue, show '0'.toNat = 48 from rfl]
  omega

theorem eq_zero_of_digitValue {c : Char} (h : c.isDigit = true) (hv : digitValue c = 0) : c = '0' := by
  have hle := (Char.isDigit_iff_toNat.1 h).1
  rw [digitValue] at hv
  exact Char.toNat_inj.1 (by omega)

/-- A number has no more digits than it is long. -/
theorem ofDigits_lt (h : ∀ c ∈ s, c.isDigit = true) : ofDigits s < 10 ^ s.length := by
  induction s with
  | nil => decide
  | cons c s ih =>
    have hc := digitValue_lt (h c List.mem_cons_self)
    have hs := ih fun d hd => h d (List.mem_cons_of_mem c hd)
    have happ : ofDigits (c :: s) = digitValue c * 10 ^ s.length + ofDigits s := by
      rw [← List.singleton_append, ofDigits_append]
      simp [ofDigits]
    have hmul : digitValue c * 10 ^ s.length ≤ 9 * 10 ^ s.length := Nat.mul_le_mul_right _ (by omega)
    rw [happ, List.length_cons, Nat.pow_succ]
    omega

/-- Writing a number in base ten and reading it gives the number. -/
theorem ofDigits_toDigits (n : Nat) : ofDigits (Nat.toDigits 10 n) = n :=
  Nat.ofDigitChars_ten_toDigits

/-- No zeros stand before the first digit of a number. -/
theorem head_toDigits {n : Nat} (h : 0 < n) : (Nat.toDigits 10 n).head? ≠ some '0' := by
  induction n using Nat.strongRecOn with
  | ind n ih =>
    rcases Nat.lt_or_ge n 10 with hlt | hle
    · have hdigit : ∀ n < 10, 0 < n → [Nat.digitChar n].head? ≠ some '0' := by decide
      rw [Nat.toDigits_of_lt_base hlt]
      exact hdigit n hlt h
    · rw [Nat.toDigits_of_base_le (by decide) hle, List.head?_append_of_ne_nil _ Nat.toDigits_ne_nil]
      exact ih (n / 10) (by omega) (by omega)

/-- The zeros at the end of a run multiply what the rest stands for. -/
theorem exists_dropTrailingZeros (s : List Char) : ∃ k, s.length = (dropTrailingZeros s).length + k ∧
    ofDigits s = ofDigits (dropTrailingZeros s) * 10 ^ k := by
  have hsplit : dropTrailingZeros s ++ s.rtakeWhile (· == '0') = s := List.rdropWhile_append_rtakeWhile
  have hzeros : s.rtakeWhile (· == '0') = List.replicate (s.rtakeWhile (· == '0')).length '0' :=
    List.eq_replicate_iff.2 ⟨rfl, fun c hc => by simpa using List.mem_rtakeWhile_imp hc⟩
  have hzero (n : Nat) : ofDigits (List.replicate n '0') = 10 ^ n * 0 := Nat.ofDigitChars_replicate_zero
  refine ⟨(s.rtakeWhile (· == '0')).length, ?_, ?_⟩
  · rw [← List.length_append, hsplit]
  · conv_lhs => rw [← hsplit, ofDigits_append, hzeros, hzero, List.length_replicate, Nat.mul_zero, Nat.add_zero]

theorem isDigit_of_mem_dropTrailingZeros (h : ∀ c ∈ s, c.isDigit = true) :
    ∀ c ∈ dropTrailingZeros s, c.isDigit = true :=
  fun c hc => h c ((List.rdropWhile_prefix (· == '0') s).subset hc)

/-- The last digit that is left is no zero. -/
theorem not_ten_dvd_ofDigits (h : ∀ c ∈ s, c.isDigit = true) (hne : dropTrailingZeros s ≠ []) :
    ¬ 10 ∣ ofDigits (dropTrailingZeros s) := by
  intro hdvd
  have hlast : ¬ ((dropTrailingZeros s).getLast hne == '0') = true := List.rdropWhile_last_not (· == '0') s hne
  have hdigit := isDigit_of_mem_dropTrailingZeros h _ (List.getLast_mem hne)
  rw [← List.dropLast_append_getLast hne, ofDigits_concat] at hdvd
  have hlt := digitValue_lt hdigit
  exact hlast (by simpa using eq_zero_of_digitValue hdigit (by omega))

end Digits

end SimKernel.Text
