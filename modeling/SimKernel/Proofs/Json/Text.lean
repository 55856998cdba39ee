import SimKernel.Json.Reading
import SimKernel.Proofs.Text.Runs

/-!
# Reading what was written

A value whose numbers are numbers and whose strings are known (`Json.Proper`) is read back from its text
(`Json.parse_write`). A number ends where the text goes on with a comma or a closing bracket (`Json.Closes`), so each part
of a value is read as it is when nothing follows.
-/

namespace SimKernel.Json

open Text

/-- The text ends, or goes on with what may stand after a value. -/
def Closes (rest : List Char) : Prop := ∀ c ∈ rest.head?, c = ',' ∨ c = ']' ∨ c = Char.ofNat 0x7d

theorem closes_nil : Closes [] := nofun

theorem closes_comma (s : List Char) : Closes (',' :: s) := by
  rintro c ⟨⟩
  exact .inl rfl

/-- An item is followed by the bracket that closes its array. -/
theorem closes_bracket (s : List Char) : Closes (']' :: s) := by
  rintro c ⟨⟩
  exact .inr (.inl rfl)

theorem closes_brace (s : List Char) : Closes (Char.ofNat 0x7d :: s) := by
  rintro c ⟨⟩
  exact .inr (.inr rfl)

/-! ## Numbers -/

section Numbers

variable {s t token rest : List Char} {c : Char}

/-- What may stand after a value is nothing of which a number consists. -/
theorem Closes.not_isDigit (h : Closes rest) : ∀ c ∈ rest.head?, c.isDigit = false := by
  intro c hc
  rcases h c hc with rfl | rfl | rfl <;> rfl

/-- What may stand after a value is no character but the three of `Closes`. -/
theorem Closes.ne (h : Closes rest) {d : Char} (hd : d ≠ ',' ∧ d ≠ ']' ∧ d ≠ Char.ofNat 0x7d) : ∀ c ∈ rest.head?, c ≠ d := by
  rintro c hc rfl
  rcases h c hc with h | h | h
  exacts [hd.1 h, hd.2.1 h, hd.2.2 h]

theorem head_append {p : Char → Prop} (hs : ∀ c ∈ s.head?, p c) (hrest : ∀ c ∈ rest.head?, p c) :
    ∀ c ∈ (s ++ rest).head?, p c := by
  intro c hc
  rw [List.head?_append] at hc
  rcases Option.or_eq_some_iff.1 hc with hc | ⟨-, hc⟩
  exacts [hs c hc, hrest c hc]

theorem readWhole_cons_of_ne (hc : c ≠ '0') (s : List Char) : readWhole (c :: s) = readDigits (c :: s) := by
  unfold readWhole
  split
  case h_1 heq => exact absurd (List.cons.inj heq).1 hc
  case h_2 => rfl

/-- Without a point there is no fraction, and nothing is read. -/
theorem readFraction_of_head (h : ∀ c ∈ s.head?, c ≠ '.') : readFraction s = some ([], s) := by
  unfold readFraction
  split
  case h_1 => exact absurd rfl (h '.' rfl)
  case h_2 => rfl

/-- An exponent need not have a sign. -/
theorem readSign_of_head (h : ∀ c ∈ s.head?, c ≠ '+' ∧ c ≠ '-') : readSign s = ([], s) := by
  unfold readSign
  split
  case h_1 => exact absurd rfl (h '+' rfl).1
  case h_2 => exact absurd rfl (h '-' rfl).2
  case h_3 => rfl

/-- Without its mark there is no exponent, and nothing is read. -/
theorem readExponent_of_head (h : ∀ c ∈ s.head?, c ≠ 'e' ∧ c ≠ 'E') : readExponent s = some ([], s) := by
  cases s with
  | nil => rfl
  | cons c s => exact if_neg (not_or.2 (h c rfl))

theorem readExponent_cons (hc : c = 'e' ∨ c = 'E') (s : List Char) :
    readExponent (c :: s) = (readDigits (readSign s).2).map fun d => (c :: (readSign s).1 ++ d.1, d.2) :=
  if_pos hc

/-- What closes a value is no digit, so a run of digits ends before it. -/
theorem readDigits_append (hrest : Closes rest) (h : readDigits s = some (token, t)) :
    readDigits (s ++ rest) = some (token, t ++ rest) := by
  unfold readDigits at h ⊢
  rw [takeWhile_append_right_of_head hrest.not_isDigit, dropWhile_append_right_of_head hrest.not_isDigit]
  split at h
  case h_1 => cases h
  case h_2 digits hdigits =>
    cases h
    cases hs : s.takeWhile Char.isDigit with
    | nil => exact absurd hs hdigits
    | cons c digits => rfl

/-- A whole number ends after a zero at once, and otherwise with its run of digits. -/
theorem readWhole_append (hrest : Closes rest) (h : readWhole s = some (token, t)) :
    readWhole (s ++ rest) = some (token, t ++ rest) := by
  cases s with
  | nil => cases h
  | cons c s =>
    by_cases hc : c = '0'
    · subst hc
      cases h
      rfl
    · rw [readWhole_cons_of_ne hc] at h
      rw [List.cons_append, readWhole_cons_of_ne hc, ← List.cons_append]
      exact readDigits_append hrest h

/-- A fraction ends with its digits, and one that is missing is not found in what closes the value. -/
theorem readFraction_append (hrest : Closes rest) (h : readFraction s = some (token, t)) :
    readFraction (s ++ rest) = some (token, t ++ rest) := by
  by_cases hs : s.head? = some '.'
  · obtain ⟨s, rfl⟩ := List.head?_eq_some_iff.1 hs
    obtain ⟨⟨digits, u⟩, hdigits, heq⟩ := Option.map_eq_some_iff.1 h
    cases heq
    simp only [List.cons_append, readFraction, readDigits_append hrest hdigits, Option.map_some]
  · have hhead : ∀ c ∈ s.head?, c ≠ '.' := by
      rintro c hc rfl
      exact hs hc
    rw [readFraction_of_head hhead] at h
    cases h
    exact readFraction_of_head (head_append hhead (hrest.ne (by decide)))

/-- What closes a value is not taken for a sign. -/
theorem readSign_append (hrest : Closes rest) : readSign (s ++ rest) = ((readSign s).1, (readSign s).2 ++ rest) := by
  by_cases hplus : s.head? = some '+'
  · obtain ⟨s, rfl⟩ := List.head?_eq_some_iff.1 hplus
    rfl
  by_cases hminus : s.head? = some '-'
  · obtain ⟨s, rfl⟩ := List.head?_eq_some_iff.1 hminus
    rfl
  have hhead : ∀ c ∈ s.head?, c ≠ '+' ∧ c ≠ '-' := by
    refine fun c hc => ⟨?_, ?_⟩ <;> rintro rfl
    exacts [hplus hc, hminus hc]
  have hclosed : ∀ c ∈ rest.head?, c ≠ '+' ∧ c ≠ '-' := fun c hc =>
    ⟨hrest.ne (by decide) c hc, hrest.ne (by decide) c hc⟩
  rw [readSign_of_head hhead, readSign_of_head (head_append hhead hclosed)]

/-- An exponent ends with its digits, and one that is missing is not found in what closes the value. -/
theorem readExponent_append (hrest : Closes rest) (h : readExponent s = some (token, t)) :
    readExponent (s ++ rest) = some (token, t ++ rest) := by
  have hclosed : ∀ c ∈ rest.head?, c ≠ 'e' ∧ c ≠ 'E' := fun c hc =>
    ⟨hrest.ne (by decide) c hc, hrest.ne (by decide) c hc⟩
  cases s with
  | nil =>
    cases h
    exact readExponent_of_head hclosed
  | cons c s =>
    by_cases hc : c = 'e' ∨ c = 'E'
    · rw [readExponent_cons hc] at h
      obtain ⟨⟨digits, u⟩, hdigits, heq⟩ := Option.map_eq_some_iff.1 h
      rw [List.cons_append, readExponent_cons hc, readSign_append hrest, readDigits_append hrest hdigits]
      cases heq
      rfl
    · rw [readExponent, if_neg hc] at h
      cases h
      exact if_neg hc

/-- The characters of a number after its sign. -/
def readUnsigned (sign s : List Char) : Option (List Char × List Char) := do
  let (whole, s) ← readWhole s
  let (fraction, s) ← readFraction s
  let (exponent, s) ← readExponent s
  return (sign ++ whole ++ fraction ++ exponent, s)

theorem readNumber_minus (s : List Char) : readNumber ('-' :: s) = readUnsigned ['-'] s := rfl

theorem readNumber_cons_of_ne (hc : c ≠ '-') (s : List Char) : readNumber (c :: s) = readUnsigned [] (c :: s) := by
  unfold readNumber
  split
  rename_i heq
  split at heq
  case h_1 hminus => exact absurd (List.cons.inj hminus).1 hc
  case h_2 =>
    cases heq
    rfl

/-- The three parts are read one after the other, each from what the one before it has left. -/
theorem readUnsigned_append {sign : List Char} (hrest : Closes rest) (h : readUnsigned sign s = some (token, t)) :
    readUnsigned sign (s ++ rest) = some (token, t ++ rest) := by
  simp only [readUnsigned, bind, Option.bind_eq_some_iff, pure, Prod.exists] at h
  obtain ⟨whole, s₁, hwhole, fraction, s₂, hfraction, exponent, s₃, hexponent, heq⟩ := h
  cases heq
  simp only [readUnsigned, readWhole_append hrest hwhole, readFraction_append hrest hfraction,
    readExponent_append hrest hexponent, bind, Option.bind_some, pure]

/-- **A number is read alike at the end of a text and before what closes a value.** -/
theorem readNumber_append (hrest : Closes rest) (h : readNumber s = some (token, t)) :
    readNumber (s ++ rest) = some (token, t ++ rest) := by
  cases s with
  | nil => cases h
  | cons c s =>
    by_cases hc : c = '-'
    · subst hc
      rw [readNumber_minus] at h
      rw [List.cons_append, readNumber_minus]
      exact readUnsigned_append hrest h
    · rw [readNumber_cons_of_ne hc] at h
      rw [List.cons_append, readNumber_cons_of_ne hc]
      exact readUnsigned_append hrest h

/-- A number begins with a minus sign or a digit. -/
theorem isDigit_of_readNumber (h : readNumber (c :: s) = some (token, t)) : c = '-' ∨ c.isDigit = true := by
  by_cases hc : c = '-'
  · exact .inl hc
  · refine .inr ?_
    rw [readNumber_cons_of_ne hc] at h
    simp only [readUnsigned, bind, Option.bind_eq_some_iff, Prod.exists] at h
    obtain ⟨whole, s₁, hwhole, -⟩ := h
    by_cases hzero : c = '0'
    · rw [hzero]
      rfl
    · rw [readWhole_cons_of_ne hzero, readDigits] at hwhole
      by_contra hdigit
      rw [List.takeWhile_cons_of_neg hdigit] at hwhole
      cases hwhole

/-- A text of digits is one run of digits. -/
theorem readDigits_of_isDigit {s : List Char} (hne : s ≠ []) (h : ∀ c ∈ s, c.isDigit = true) :
    readDigits s = some (s, []) := by
  have htake : s.takeWhile Char.isDigit = s := List.takeWhile_eq_self_iff.2 h
  have hdrop : s.dropWhile Char.isDigit = [] := List.dropWhile_eq_nil_iff.2 h
  rw [readDigits, htake, hdrop]
  cases s with
  | nil => exact absurd rfl hne
  | cons c s => rfl

/-- Decimal digits are a number: zero is the only one that starts with a zero. -/
theorem readNumber_toDigits (n : Nat) : readNumber (Nat.toDigits 10 n) = some (Nat.toDigits 10 n, []) := by
  rcases Nat.eq_zero_or_pos n with rfl | hpos
  · rfl
  have hdigits : ∀ c ∈ Nat.toDigits 10 n, c.isDigit = true := fun c => Nat.isDigit_of_mem_toDigits (by decide) (by decide)
  have hhead := head_toDigits hpos
  have hne : Nat.toDigits 10 n ≠ [] := Nat.toDigits_ne_nil
  have hread := readDigits_of_isDigit hne hdigits
  cases hs : Nat.toDigits 10 n with
  | nil => exact absurd hs hne
  | cons c s =>
    rw [hs] at hhead hread hdigits
    have hminus : c ≠ '-' := by
      rintro rfl
      exact absurd (hdigits '-' List.mem_cons_self) (by decide)
    have hzero : c ≠ '0' := fun h => hhead (congrArg some h)
    rw [readNumber_cons_of_ne hminus, readUnsigned, readWhole_cons_of_ne hzero, hread]
    simp [readFraction, readExponent]

end Numbers

/-! ## Strings -/

section Strings

variable {c : Char}

/-- A character with a mark of its own is read as the code of that mark. -/
theorem readCodes_escape {n : Nat} (h : escaped? c = some n) (s : List Char) :
    readCodes ('\\' :: c :: s) = (readCodes s).map fun r => (n :: r.1, r.2) := by
  have hc : c ≠ 'u' := by
    rintro rfl
    cases h
  rw [readCodes.eq_def]
  split
  case h_1 heq => cases heq
  case h_2 heq => exact absurd (List.cons.inj heq).1 (by decide)
  case h_3 heq => exact absurd (List.cons.inj (List.cons.inj heq).2).1 hc
  case h_4 heq =>
    cases heq
    rw [h]
    cases readCodes s <;> rfl
  case h_5 hslash heq =>
    cases heq
    exact (hslash c s rfl rfl).elim

/-- A character that needs no mark is read as its own code. -/
theorem readCodes_plain (hquote : c ≠ '"') (hslash : c ≠ '\\') (hlow : ¬ c.toNat < 0x20) (s : List Char) :
    readCodes (c :: s) = (readCodes s).map fun r => (c.toNat :: r.1, r.2) := by
  rw [readCodes.eq_def]
  split
  case h_1 heq => cases heq
  case h_2 heq => exact absurd (List.cons.inj heq).1 hquote
  case h_3 heq => exact absurd (List.cons.inj heq).1 hslash
  case h_4 heq => exact absurd (List.cons.inj heq).1 hslash
  case h_5 heq =>
    cases heq
    rw [if_neg hlow]
    cases readCodes s <;> rfl

/-- Four hexadecimal digits are read as one code. -/
theorem readCodes_hex {a b d e : Char} {n : Nat} (h : hex4? a b d e = some n) (s : List Char) :
    readCodes ('\\' :: 'u' :: a :: b :: d :: e :: s) = (readCodes s).map fun r => (n :: r.1, r.2) := by
  rw [readCodes, h]
  cases readCodes s <;> rfl

/-- A character without a mark is written with the two digits of its code. -/
theorem hex4?_control : ∀ n < 0x20, (if n < 0x10 then ['0'] else []) ++ Nat.toDigits 16 n =
      [Nat.digitChar (n / 16), Nat.digitChar (n % 16)] ∧
    hex4? '0' '0' (Nat.digitChar (n / 16)) (Nat.digitChar (n % 16)) = some n := by
  decide

/-- Every written character is read as its code. -/
theorem readCodes_writeChar (c : Char) (s : List Char) :
    readCodes (writeChar c ++ s) = (readCodes s).map fun r => (c.toNat :: r.1, r.2) := by
  unfold writeChar
  split
  case isTrue hmark => exact readCodes_escape (by rcases hmark with rfl | rfl <;> rfl) s
  case isFalse hmark =>
  split
  case isTrue hc => exact readCodes_escape (by rw [hc]; rfl) s
  split
  case isTrue hc => exact readCodes_escape (by rw [hc]; rfl) s
  split
  case isTrue hc => exact readCodes_escape (by rw [hc]; rfl) s
  split
  case isTrue hc => exact readCodes_escape (by rw [hc]; rfl) s
  split
  case isTrue hc => exact readCodes_escape (by rw [hc]; rfl) s
  split
  case isTrue hlow =>
    obtain ⟨hdigits, hcode⟩ := hex4?_control c.toNat hlow
    rw [List.append_assoc _ _ (Nat.toDigits _ _), hdigits]
    exact readCodes_hex hcode s
  case isFalse hlow =>
    rw [not_or] at hmark
    exact readCodes_plain hmark.1 hmark.2 hlow s

/-- A written string ends at its closing quote: quotes within it are written with a mark. -/
theorem readCodes_write (s rest : List Char) :
    readCodes (s.flatMap writeChar ++ '"' :: rest) = some (s.map Char.toNat, rest) := by
  induction s with
  | nil => rfl
  | cons c s ih => rw [List.flatMap_cons, List.append_assoc, readCodes_writeChar, ih]; rfl

/-- No character is half of a pair. -/
theorem isHigh_toNat (c : Char) : isHigh c.toNat = false := by
  have hvalid : c.toNat < 0xd800 ∨ 0xdfff < c.toNat ∧ c.toNat < 0x110000 := c.valid
  rw [isHigh, Bool.and_eq_false_iff, decide_eq_false_iff_not, decide_eq_false_iff_not]
  omega

theorem isLow_toNat (c : Char) : isLow c.toNat = false := by
  have hvalid : c.toNat < 0xd800 ∨ 0xdfff < c.toNat ∧ c.toNat < 0x110000 := c.valid
  rw [isLow, Bool.and_eq_false_iff, decide_eq_false_iff_not, decide_eq_false_iff_not]
  omega

/-- Codes of characters are those characters again, since no two of them make a pair. -/
theorem ofCodes_map (s : List Char) : ofCodes (s.map Char.toNat) = some s := by
  induction s with
  | nil => rfl
  | cons c s ih =>
    cases s with
    | nil => simp [ofCodes, isHigh_toNat, isLow_toNat]
    | cons d s =>
      rw [List.map_cons] at ih
      simp [ofCodes, isHigh_toNat, isLow_toNat, ih]

/-- A string is read back from what was written between the quotes. -/
theorem readString_write (s rest : List Char) :
    readString (s.flatMap writeChar ++ '"' :: rest) = some (some s, rest) := by
  rw [readString, readCodes_write, ← ofCodes_map]
  rfl

end Strings

/-! ## Values -/

/-- Its numbers are numbers, and its strings are known. -/
inductive Proper : Json → Prop where
  | null : Proper null
  | bool (b : Bool) : Proper (bool b)
  | number {token : List Char} (h : readNumber token = some (token, [])) : Proper (number token)
  | string (s : List Char) : Proper (string (some s))
  | array {items : List Json} (h : ∀ v ∈ items, Proper v) : Proper (array items)
  | object {members : List (Option (List Char) × Json)} (hnames : ∀ m ∈ members, m.1.isSome)
      (h : ∀ m ∈ members, Proper m.2) : Proper (object members)

section Values

variable {v : Json} {rest : List Char} {fuel : Nat}

theorem skipSpace_cons {c : Char} (h : isSpace c = false) (s : List Char) : skipSpace (c :: s) = c :: s :=
  List.dropWhile_cons_of_neg (by simp [h])

/-- A number begins like nothing else. -/
theorem ne_of_readNumber {c d : Char} {s token t : List Char} (h : readNumber (c :: s) = some (token, t))
    (hd : d ≠ '-' ∧ d.isDigit = false) : c ≠ d := by
  rintro rfl
  rcases isDigit_of_readNumber h with h | h
  · exact hd.1 h
  · exact Bool.false_ne_true (hd.2.symm.trans h)

/-- A number does not begin with a blank. -/
theorem isSpace_of_readNumber {c : Char} {s token t : List Char} (h : readNumber (c :: s) = some (token, t)) :
    isSpace c = false := by
  simp only [isSpace, Bool.or_eq_false_iff, beq_eq_false_iff_ne]
  exact ⟨⟨⟨ne_of_readNumber h (by decide), ne_of_readNumber h (by decide)⟩, ne_of_readNumber h (by decide)⟩,
    ne_of_readNumber h (by decide)⟩

/-- A value begins with a character that is neither a blank nor a closing bracket. -/
theorem Proper.write_eq_cons (h : Proper v) : ∃ c s, write v = c :: s ∧ isSpace c = false ∧ c ≠ ']' := by
  cases h with
  | null => exact ⟨_, _, rfl, by decide, by decide⟩
  | bool b => cases b <;> exact ⟨_, _, rfl, by decide, by decide⟩
  | @number token h =>
    cases token with
    | nil => cases h
    | cons c s => exact ⟨c, s, rfl, isSpace_of_readNumber h, ne_of_readNumber h (by decide)⟩
  | string s => exact ⟨_, _, rfl, by decide, by decide⟩
  | array => exact ⟨_, _, rfl, by decide, by decide⟩
  | object => exact ⟨_, _, rfl, by decide, by decide⟩

/-- The value is read from its text, whatever may stand after a value follows. -/
def ReadsBack (v : Json) : Prop :=
  ∀ (fuel : Nat) (rest : List Char), Closes rest → 2 * (write v).length ≤ fuel →
    readValue fuel (write v ++ rest) = some (v, rest)

theorem readValue_null : readValue (fuel + 1) (write null ++ rest) = some (null, rest) := by
  rw [readValue]
  rfl

theorem readValue_bool (b : Bool) : readValue (fuel + 1) (write (bool b) ++ rest) = some (bool b, rest) := by
  rw [readValue]
  cases b <;> rfl

/-- A string is a value, and ends at its quote. -/
theorem readValue_string (s : List Char) :
    readValue (fuel + 1) (write (string (some s)) ++ rest) = some (string (some s), rest) := by
  have htext : write (string (some s)) ++ rest = '"' :: (s.flatMap writeChar ++ '"' :: rest) := by
    simp [write, writeString]
  rw [htext, readValue]
  exact congrArg (Option.map _) (readString_write s rest)

/-- What begins like a number is read as one: no other value begins with a minus sign or a digit. -/
theorem readValue_number {c : Char} {s t token : List Char} (h : readNumber (c :: s) = some (token, t)) :
    readValue (fuel + 1) (c :: s) = some (number token, t) := by
  rw [readValue, skipSpace_cons (isSpace_of_readNumber h)]
  split
  case h_1 heq => exact absurd (List.cons.inj heq).1 (ne_of_readNumber h (by decide))
  case h_2 heq => exact absurd (List.cons.inj heq).1 (ne_of_readNumber h (by decide))
  case h_3 heq => exact absurd (List.cons.inj heq).1 (ne_of_readNumber h (by decide))
  case h_4 heq => exact absurd (List.cons.inj heq).1 (ne_of_readNumber h (by decide))
  case h_5 heq => exact absurd (List.cons.inj heq).1 (ne_of_readNumber h (by decide))
  case h_6 heq =>
    cases heq
    rw [if_neg (ne_of_readNumber h (by decide)), h]
    rfl
  case h_7 heq => cases heq

theorem Proper.length_write_pos (h : Proper v) : 0 < (write v).length := by
  obtain ⟨c, s, hwrite, -, -⟩ := h.write_eq_cons
  rw [hwrite]
  exact Nat.succ_pos _

/-! ### Items and members -/

/-- The bracket behind an item ends the array. -/
theorem readItems_last {s : List Char} (h : readValue fuel s = some (v, ']' :: rest)) :
    readItems (fuel + 1) s = some ([v], rest) := by
  rw [readItems, h]
  rfl

/-- The comma behind an item is followed by the other items. -/
theorem readItems_more {s t : List Char} {items : List Json} (h : readValue fuel s = some (v, ',' :: t))
    (hmore : readItems fuel t = some (items, rest)) : readItems (fuel + 1) s = some (v :: items, rest) := by
  rw [readItems, h]
  change (readItems fuel t).bind _ = _
  rw [hmore]
  rfl

/-- The brace behind a member ends the object. -/
theorem readMembers_last {k s : List Char} (h : readValue fuel s = some (v, Char.ofNat 0x7d :: rest)) :
    readMembers (fuel + 1) (writeString k ++ ':' :: s) = some ([(some k, v)], rest) := by
  rw [writeString, List.append_assoc, readMembers]
  change (readString (k.flatMap writeChar ++ '"' :: ':' :: s)).bind _ = _
  rw [readString_write]
  change (readValue fuel s).bind _ = _
  rw [h]
  rfl

/-- The comma behind a member is followed by the other members. -/
theorem readMembers_more {k s t : List Char} {members : List (Option (List Char) × Json)}
    (h : readValue fuel s = some (v, ',' :: t)) (hmore : readMembers fuel t = some (members, rest)) :
    readMembers (fuel + 1) (writeString k ++ ':' :: s) = some ((some k, v) :: members, rest) := by
  rw [writeString, List.append_assoc, readMembers]
  change (readString (k.flatMap writeChar ++ '"' :: ':' :: s)).bind _ = _
  rw [readString_write]
  change (readValue fuel s).bind _ = _
  rw [h]
  change (readMembers fuel t).bind _ = _
  rw [hmore]
  rfl

theorem writeItems_cons_cons (v w : Json) (items : List Json) :
    writeItems (v :: w :: items) = write v ++ ',' :: writeItems (w :: items) := rfl

theorem writeMembers_cons_cons (k : Option (List Char)) (v : Json) (m : Option (List Char) × Json)
    (members : List (Option (List Char) × Json)) :
    writeMembers ((k, v) :: m :: members) =
      writeString (k.getD []) ++ ':' :: write v ++ ',' :: writeMembers (m :: members) := rfl

/-- The items of an array are read if each of them is. -/
theorem readItems_write {items : List Json} (fuel : Nat) (rest : List Char) (hne : items ≠ [])
    (hreads : ∀ v ∈ items, ReadsBack v) (hfuel : 2 * (writeItems items).length ≤ fuel) :
    readItems fuel (writeItems items ++ rest) = some (items, rest) := by
  induction items generalizing fuel with
  | nil => exact absurd rfl hne
  | cons v items ih =>
    cases items with
    | nil =>
      simp only [writeItems, List.length_append, List.length_singleton] at hfuel
      obtain ⟨fuel, rfl⟩ : ∃ f, fuel = f + 1 := ⟨fuel - 1, by omega⟩
      have hv := hreads v List.mem_cons_self fuel _ (closes_bracket rest) (by omega)
      rw [writeItems, List.append_assoc]
      exact readItems_last hv
    | cons w items =>
      simp only [writeItems, List.length_append, List.length_cons] at hfuel
      obtain ⟨fuel, rfl⟩ : ∃ f, fuel = f + 1 := ⟨fuel - 1, by omega⟩
      have hv := hreads v List.mem_cons_self fuel _ (closes_comma (writeItems (w :: items) ++ rest)) (by omega)
      have hmore := ih fuel (List.cons_ne_nil w items) (fun u hu => hreads u (List.mem_cons_of_mem v hu)) (by omega)
      rw [writeItems_cons_cons, List.append_assoc]
      exact readItems_more hv hmore

/-- The members of an object are read if the value of each of them is. -/
theorem readMembers_write {members : List (Option (List Char) × Json)} (fuel : Nat) (rest : List Char) (hne : members ≠ [])
    (hnames : ∀ m ∈ members, m.1.isSome) (hreads : ∀ m ∈ members, ReadsBack m.2)
    (hfuel : 2 * (writeMembers members).length ≤ fuel) :
    readMembers fuel (writeMembers members ++ rest) = some (members, rest) := by
  induction members generalizing fuel with
  | nil => exact absurd rfl hne
  | cons m members ih =>
    obtain ⟨k, v⟩ := m
    obtain ⟨k, rfl⟩ := Option.isSome_iff_exists.1 (hnames _ List.mem_cons_self)
    have hread : ReadsBack v := hreads (some k, v) List.mem_cons_self
    cases members with
    | nil =>
      simp only [writeMembers, List.length_append, List.length_cons, List.length_nil] at hfuel
      obtain ⟨fuel, rfl⟩ : ∃ f, fuel = f + 1 := ⟨fuel - 1, by omega⟩
      have hv := hread fuel _ (closes_brace rest) (by omega)
      have htext : writeMembers [(some k, v)] ++ rest = writeString k ++ ':' :: (write v ++ Char.ofNat 0x7d :: rest) := by
        simp [writeMembers]
      rw [htext]
      exact readMembers_last hv
    | cons n members =>
      rw [writeMembers_cons_cons] at hfuel ⊢
      simp only [List.length_append, List.length_cons] at hfuel
      obtain ⟨fuel, rfl⟩ : ∃ f, fuel = f + 1 := ⟨fuel - 1, by omega⟩
      have hv := hread fuel _ (closes_comma (writeMembers (n :: members) ++ rest)) (by omega)
      have hmore := ih fuel (List.cons_ne_nil n members) (fun m hm => hnames m (List.mem_cons_of_mem _ hm))
        (fun m hm => hreads m (List.mem_cons_of_mem _ hm)) (by omega)
      rw [List.append_assoc, List.cons_append, List.append_assoc, List.cons_append]
      exact readMembers_more hv hmore

/-- A bracket that does not close at once opens the items of an array. -/
theorem readValue_array {c : Char} {s : List Char} {items : List Json} (hspace : isSpace c = false) (hc : c ≠ ']')
    (h : readItems fuel (c :: s) = some (items, rest)) :
    readValue (fuel + 1) ('[' :: c :: s) = some (array items, rest) := by
  rw [readValue, skipSpace_cons (by decide)]
  simp only [skipSpace_cons hspace]
  split
  case h_1 heq => exact absurd (List.cons.inj heq).1 hc
  case h_2 =>
    rw [h]
    rfl

/-- A brace before a string opens the members of an object. -/
theorem readValue_object {k s : List Char} {members : List (Option (List Char) × Json)}
    (h : readMembers fuel (writeString k ++ s) = some (members, rest)) :
    readValue (fuel + 1) (Char.ofNat 0x7b :: (writeString k ++ s)) = some (object members, rest) := by
  rw [readValue, skipSpace_cons (by decide)]
  exact congrArg (Option.map _) h

/-- No value is read without fuel, and none needs that. -/
theorem Proper.readsBack_of_succ (h : Proper v) (hread : ∀ fuel rest, Closes rest → 2 * (write v).length ≤ fuel + 1 →
    readValue (fuel + 1) (write v ++ rest) = some (v, rest)) : ReadsBack v := by
  intro fuel rest hrest hfuel
  have hpos := h.length_write_pos
  obtain ⟨fuel, rfl⟩ : ∃ f, fuel = f + 1 := ⟨fuel - 1, by omega⟩
  exact hread fuel rest hrest hfuel

/-- By induction on the value. Items and members are read with less fuel than the whole, which is enough since their
text is shorter. -/
theorem Proper.readsBack (h : Proper v) : ReadsBack v := by
  induction h with
  | null => exact Proper.null.readsBack_of_succ fun _ _ _ _ => readValue_null
  | bool b => exact (Proper.bool b).readsBack_of_succ fun _ _ _ _ => readValue_bool b
  | string s => exact (Proper.string s).readsBack_of_succ fun _ _ _ _ => readValue_string s
  | @number token h =>
    refine (Proper.number h).readsBack_of_succ fun fuel rest hrest _ => ?_
    cases token with
    | nil => cases h
    | cons c s => exact readValue_number (readNumber_append hrest h)
  | @array items hproper hreads =>
    refine (Proper.array hproper).readsBack_of_succ fun fuel rest _ hfuel => ?_
    rw [write, List.length_cons] at hfuel
    cases items with
    | nil =>
      rw [readValue]
      rfl
    | cons v items =>
      obtain ⟨c, s, hwrite, hspace, hc⟩ := (hproper v List.mem_cons_self).write_eq_cons
      obtain ⟨t, ht⟩ : ∃ t, writeItems (v :: items) = c :: t := by
        cases items with
        | nil => exact ⟨_, congrArg (· ++ _) hwrite⟩
        | cons w items => exact ⟨_, congrArg (· ++ _) hwrite⟩
      have hitems := readItems_write fuel rest (List.cons_ne_nil v items)
        (fun v hv => hreads v hv) (by omega)
      rw [ht, List.cons_append] at hitems
      rw [write, ht]
      exact readValue_array hspace hc hitems
  | @object members hnames hproper hreads =>
    refine (Proper.object hnames hproper).readsBack_of_succ fun fuel rest _ hfuel => ?_
    rw [write, List.length_cons] at hfuel
    cases members with
    | nil =>
      rw [readValue]
      rfl
    | cons m members =>
      obtain ⟨k, v⟩ := m
      obtain ⟨k, rfl⟩ := Option.isSome_iff_exists.1 (hnames _ List.mem_cons_self)
      have hmembers := readMembers_write fuel rest (List.cons_ne_nil (some k, v) members) hnames
        (fun m hm => hreads m hm) (by omega)
      obtain ⟨t, ht⟩ : ∃ t, writeMembers ((some k, v) :: members) = writeString k ++ t := by
        cases members with
        | nil => exact ⟨_, List.append_assoc _ _ _⟩
        | cons n members => exact ⟨_, by rw [writeMembers_cons_cons, List.append_assoc]; rfl⟩
      rw [ht, List.append_assoc] at hmembers
      rw [write, ht, List.cons_append, List.append_assoc]
      exact readValue_object hmembers

/-- **Values are read back from their text.** -/
theorem Proper.parse_write (h : Proper v) : parse (write v) = some v := by
  have hread := h.readsBack (2 * (write v).length + 2) [] closes_nil (Nat.le_add_right _ 2)
  rw [List.append_nil] at hread
  rw [parse, hread]
  rfl

end Values

end SimKernel.Json
