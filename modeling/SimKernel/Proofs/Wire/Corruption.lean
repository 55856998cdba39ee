import SimKernel.Proofs.Outcome
import SimKernel.Proofs.Wire.Checksum

/-!
# Corrupted words

Two windows of one length that differ within the word at an even position only (`Corrupts`). Their sums differ by the
difference of these words, which is at most 65535, and folding tells apart what is not congruent modulo 65535. So the
checksums of the windows are equal only if one word is zero and the other one has all bits set
(`internetChecksum_eq_iff_swapped`). The last byte of a window of odd length is the high half of a word, which is too little
for that.

Hence a header that is accepted for its checksum is refused once a word of it is corrupted, unless the two zeros of the
arithmetic modulo 65535 were exchanged (`NetHeader.readStart_of_internetChecksum_ne`).
-/

namespace SimKernel

/-- The word of a window at a position; a byte that is missing is zero. -/
def wordAt (window : Bytes) (p : Nat) : Nat :=
  (window[p]?.getD 0).toNat * 256 + (window[p + 1]?.getD 0).toNat

/-- One word is zero, and the other one has all bits set. -/
def Swapped (a b : Nat) : Prop :=
  a = 0 ∧ b = 0xffff ∨ a = 0xffff ∧ b = 0

instance (a b : Nat) : Decidable (Swapped a b) :=
  inferInstanceAs (Decidable (_ ∨ _))

/-- The second window is the first one with other bytes in the word at an even position. -/
structure Corrupts (x y : Bytes) (p : Nat) : Prop where
  length_eq : x.length = y.length
  even : p % 2 = 0
  elsewhere : ∀ i, i ≠ p → i ≠ p + 1 → x[i]? = y[i]?
  ne : x ≠ y

/-! ## Words -/

theorem wordAt_le (window : Bytes) (p : Nat) : wordAt window p ≤ 0xffff := by
  have := (window[p]?.getD 0).toNat_lt
  have := (window[p + 1]?.getD 0).toNat_lt
  unfold wordAt
  omega

/-- A last byte without a neighbour is the high half of a word. -/
theorem wordAt_of_last {window : Bytes} {p : Nat} (h : p + 1 = window.length) : wordAt window p ≤ 0xff00 := by
  have := (window[p]?.getD 0).toNat_lt
  rw [wordAt, List.getElem?_eq_none (Nat.le_of_eq h.symm), Option.getD_none, UInt8.toNat_zero]
  omega

theorem wordSum_take_two (bytes : Bytes) : wordSum (bytes.take 2) = wordAt bytes 0 := by
  match bytes with
  | [] => rfl
  | [a] => simp [wordSum, wordAt]
  | a :: b :: rest => simp [wordSum, wordAt]

/-- The sum of a window is that of the words before a word, the word, and those after it. -/
theorem wordSum_eq_add_wordAt {p : Nat} (heven : p % 2 = 0) (window : Bytes) :
    wordSum window = wordSum (window.take p) + wordAt window p + wordSum (window.drop (p + 2)) := by
  have hcut (bytes : Bytes) {n : Nat} (hn : n % 2 = 0) :
      wordSum bytes = wordSum (bytes.take n) + wordSum (bytes.drop n) := by
    rcases Nat.lt_or_ge bytes.length n with hlt | hle
    · rw [List.take_of_length_le (Nat.le_of_lt hlt), List.drop_of_length_le (Nat.le_of_lt hlt)]
      rfl
    · have htake : (bytes.take n).length % 2 = 0 := by rwa [List.length_take, Nat.min_eq_left hle]
      rw [← wordSum_append htake, List.take_append_drop]
  have hword : wordAt (window.drop p) 0 = wordAt window p := by
    simp only [wordAt, List.getElem?_drop, Nat.add_zero, Nat.zero_add]
  rw [hcut window heven, hcut (window.drop p) (n := 2) rfl, wordSum_take_two, hword, List.drop_drop, Nat.add_assoc]

/-! ## Corruption of one word -/

namespace Corrupts

variable {x y : Bytes} {p : Nat}

theorem take_eq (h : Corrupts x y p) : x.take p = y.take p := by
  refine List.ext_getElem? fun i => ?_
  rw [List.getElem?_take, List.getElem?_take]
  split
  · exact h.elsewhere i (by omega) (by omega)
  · rfl

theorem drop_eq (h : Corrupts x y p) : x.drop (p + 2) = y.drop (p + 2) := by
  refine List.ext_getElem? fun i => ?_
  rw [List.getElem?_drop, List.getElem?_drop]
  exact h.elsewhere _ (by omega) (by omega)

theorem of_take_drop (hlength : x.length = y.length) (heven : p % 2 = 0) (htake : x.take p = y.take p)
    (hdrop : x.drop (p + 2) = y.drop (p + 2)) (hne : x ≠ y) : Corrupts x y p := by
  refine ⟨hlength, heven, fun i hp hp' => ?_, hne⟩
  rcases Nat.lt_or_ge i p with hlt | hge
  · have := congrArg (·[i]?) htake
    simpa only [List.getElem?_take_of_lt hlt] using this
  · obtain ⟨j, rfl⟩ := Nat.exists_eq_add_of_le (show p + 2 ≤ i by omega)
    have := congrArg (·[j]?) hdrop
    simpa only [List.getElem?_drop] using this

instance (x y : Bytes) (p : Nat) : Decidable (Corrupts x y p) :=
  decidable_of_iff (x.length = y.length ∧ p % 2 = 0 ∧ x.take p = y.take p ∧ x.drop (p + 2) = y.drop (p + 2) ∧ x ≠ y)
    ⟨fun ⟨hlength, heven, htake, hdrop, hne⟩ => of_take_drop hlength heven htake hdrop hne,
      fun h => ⟨h.length_eq, h.even, h.take_eq, h.drop_eq, h.ne⟩⟩

/-- A byte that is the same or missing in both windows. -/
theorem getElem?_eq_of_byte (h : Corrupts x y p) {i : Nat} (hbyte : (x[i]?.getD 0).toNat = (y[i]?.getD 0).toNat) :
    x[i]? = y[i]? := by
  rcases Nat.lt_or_ge i x.length with hlt | hge
  · have hlt' : i < y.length := h.length_eq ▸ hlt
    rw [List.getElem?_eq_getElem hlt, List.getElem?_eq_getElem hlt'] at hbyte ⊢
    exact congrArg some (UInt8.toNat_inj.1 hbyte)
  · rw [List.getElem?_eq_none hge, List.getElem?_eq_none (h.length_eq ▸ hge)]

theorem wordAt_ne (h : Corrupts x y p) : wordAt x p ≠ wordAt y p := by
  intro hword
  have := (x[p + 1]?.getD 0).toNat_lt
  have := (y[p + 1]?.getD 0).toNat_lt
  unfold wordAt at hword
  refine h.ne (List.ext_getElem? fun i => ?_)
  by_cases hfirst : i = p
  · subst hfirst
    exact h.getElem?_eq_of_byte (by omega)
  · by_cases hsecond : i = p + 1
    · subst hsecond
      exact h.getElem?_eq_of_byte (by omega)
    · exact h.elsewhere i hfirst hsecond

/-- The rest of the sum is the same. -/
theorem exists_rest (h : Corrupts x y p) : ∃ rest, wordSum x = rest + wordAt x p ∧ wordSum y = rest + wordAt y p := by
  refine ⟨wordSum (x.take p) + wordSum (x.drop (p + 2)), ?_, ?_⟩
  · rw [wordSum_eq_add_wordAt h.even, Nat.add_right_comm]
  · rw [h.take_eq, h.drop_eq, wordSum_eq_add_wordAt h.even, Nat.add_right_comm]

/-- A corrupted word goes unnoticed exactly if the two zeros were exchanged and neither sum is zero. -/
theorem internetChecksum_eq_iff (h : Corrupts x y p) (initial : Nat) :
    internetChecksum x initial = internetChecksum y initial ↔
      Swapped (wordAt x p) (wordAt y p) ∧ initial + wordSum x ≠ 0 ∧ initial + wordSum y ≠ 0 := by
  obtain ⟨rest, hx, hy⟩ := h.exists_rest
  have hxword := wordAt_le x p
  have hyword := wordAt_le y p
  have hne := h.wordAt_ne
  rw [SimKernel.internetChecksum_eq_iff, foldCarries_eq_iff, hx, hy]
  unfold Swapped
  -- Words that are congruent modulo 65535 and differ are its two zeros.
  omega

theorem not_swapped_of_last (h : Corrupts x y p) (hlast : p + 1 = x.length) : ¬ Swapped (wordAt x p) (wordAt y p) := by
  have hx := wordAt_of_last hlast
  have hy := wordAt_of_last (hlast.trans h.length_eq)
  unfold Swapped
  omega

end Corrupts

/-- A header whose checksum is not zero is refused. -/
theorem NetHeader.readStart_of_internetChecksum_ne {header : Bytes} (hlength : header.length = 20)
    (hsum : internetChecksum header 0 ≠ 0) (rest : Bytes) :
    NetHeader.codec.readStart (header ++ rest) = .error (.malformed "NetHeader" "header checksum mismatch") := by
  have hroom : 20 ≤ (Reader.atStart (header ++ rest)).remaining := by
    change 20 ≤ (header ++ rest).length
    rw [List.length_append]
    omega
  obtain ⟨r, hr, -⟩ := Reader.take_of_le hroom
  have hread : (Reader.atStart (header ++ rest)).checksum 20 0 = .ok (internetChecksum header 0, r) := by
    have htake : ((header ++ rest).drop (Reader.atStart (header ++ rest)).position).take 20 = header :=
      List.take_left' hlength
    rw [Reader.checksum, hr, htake]
    rfl
  have hdecode : NetHeader.codec.decode (Reader.atStart (header ++ rest)) =
      .error (.malformed "NetHeader" "header checksum mismatch") := by
    dsimp only [NetHeader.codec]
    rw [hread]
    exact if_pos hsum
  rw [Codec.readStart, hdecode]
  rfl

/-- **Corruption of one word is detected.** Two windows that differ within the word at one even position, wherever it is and
whatever the rest, have equal checksums only if one of the words is zero and the other one has all bits set; then they have,
unless one of the sums is zero. It never happens to a last byte without a neighbour. So a window whose checksum is zero is told
from each of its other corruptions, and a header that is read before such a corruption is refused afterwards, whatever follows
it. Windows of less than `2 ^ 40` bytes need no more than 64 bits for their sums. -/
theorem internetChecksum_eq_iff_swapped {x y : Bytes} {p : Nat} (h : Corrupts x y p) (initial : Nat) :
    (internetChecksum x initial = internetChecksum y initial ↔
      Swapped (wordAt x p) (wordAt y p) ∧ initial + wordSum x ≠ 0 ∧ initial + wordSum y ≠ 0) ∧
    (p + 1 = x.length → internetChecksum x initial ≠ internetChecksum y initial) ∧
    (¬ Swapped (wordAt x p) (wordAt y p) →
      (internetChecksum x initial = 0 → internetChecksum y initial ≠ 0) ∧
      (x.length = 20 → ∀ rest header, NetHeader.codec.readStart (x ++ rest) = .ok header →
        NetHeader.codec.readStart (y ++ rest) = .error (.malformed "NetHeader" "header checksum mismatch"))) ∧
    (x.length < 2 ^ 40 → initial < 2 ^ 32 → initial + wordSum x < 2 ^ 64 ∧ initial + wordSum y < 2 ^ 64) := by
  have hequal (n : Nat) : internetChecksum x n = internetChecksum y n → Swapped (wordAt x p) (wordAt y p) :=
    fun heq => ((h.internetChecksum_eq_iff n).1 heq).1
  refine ⟨h.internetChecksum_eq_iff initial, ?_, ?_, ?_⟩
  · exact fun hlast heq => h.not_swapped_of_last hlast (hequal initial heq)
  · intro hother
    have htold (n : Nat) (hzero : internetChecksum x n = 0) : internetChecksum y n ≠ 0 :=
      fun hy => hother (hequal n (hzero.trans hy.symm))
    refine ⟨htold initial, ?_⟩
    intro hlength rest header hread
    have hzero : internetChecksum x 0 = 0 := by
      refine Decidable.byContradiction fun hne => ?_
      rw [NetHeader.readStart_of_internetChecksum_ne hlength hne] at hread
      cases hread
    exact NetHeader.readStart_of_internetChecksum_ne (h.length_eq ▸ hlength) (htold 0 hzero) rest
  · exact fun hlength hinitial => ⟨add_wordSum_lt hlength hinitial, add_wordSum_lt (h.length_eq ▸ hlength) hinitial⟩

/-- A header from 10.0.0.1 to 10.0.0.2 with the given identification and time to live, and the checksum for 0 and 64. -/
def headerBytes (id ttl : UInt8) : Bytes :=
  [0x45, 0, 0, 0x1f, id, id, 0, 0, ttl, 0x11, 0x66, 0xcc, 0x0a, 0, 0, 1, 0x0a, 0, 0, 2]

theorem internetChecksum_eq_iff_swapped_headerBytes :
    (Corrupts (headerBytes 0 64) (headerBytes 0 65) 8 ∧
      NetHeader.codec.readStart (headerBytes 0 64) = .ok (⟨31, 0, 64, 17, 0x0a000001, 0x0a000002⟩, 20) ∧
      NetHeader.codec.readStart (headerBytes 0 65) = .error (.malformed "NetHeader" "header checksum mismatch")) ∧
    Corrupts (headerBytes 0 64) (headerBytes 0xff 64) 4 ∧
      internetChecksum (headerBytes 0 64) 0 = internetChecksum (headerBytes 0xff 64) 0 := by
  have hread : NetHeader.codec.readStart (headerBytes 0 64) = .ok (⟨31, 0, 64, 17, 0x0a000001, 0x0a000002⟩, 20) :=
    Outcome.toOption_eq_some_iff.1 (by decide +kernel)
  have hother : Corrupts (headerBytes 0 64) (headerBytes 0 65) 8 := by decide
  have hswap : Corrupts (headerBytes 0 64) (headerBytes 0xff 64) 4 := by decide
  have hrefused := ((internetChecksum_eq_iff_swapped hother 0).2.2.1 (by decide)).2 rfl [] _ hread
  exact ⟨⟨hother, hread, hrefused⟩, hswap, (internetChecksum_eq_iff_swapped hswap 0).1.2 (by decide)⟩

end SimKernel
