import Mathlib.Algebra.Group.Nat.Defs
import SimKernel.Proofs.Wire.Cursors
import SimKernel.Wire.Steps

/-!
# Windows that hold their own checksum

Folding the carries in is arithmetic modulo 65535, where zero is written in two ways: a sum of nothing stays zero, and
every other multiple of 65535 becomes 65535 itself (`foldCarries_eq`). Words at even positions add up separately
(`wordSum_append`), so what is written over a word of zeros is added to the sum (`wordSum_overlay`).

A sum and the complement of what it folds to make a multiple of 65535 that is not zero. Hence a window verifies once its
checksum is written over a word of zeros (`internetChecksum_patched`).
-/

namespace SimKernel

/-! ## Folding -/

/-- What is left of a sum modulo 65535, with zero only for the sum that is zero. -/
theorem foldCarries_eq (n : Nat) : foldCarries n = if n = 0 then 0 else (n - 1) % 0xffff + 1 := by
  fun_induction foldCarries n with
  | case1 n h ih =>
    -- one round keeps the residue, and a sum of more than 16 bits does not become zero
    rw [ih, if_neg (by omega), if_neg (by omega)]
    omega
  | case2 n h =>
    split <;> omega

/-- Folding keeps the residue and whether the sum is zero, and nothing else. -/
theorem foldCarries_eq_iff {m n : Nat} :
    foldCarries m = foldCarries n ↔ (m = 0 ↔ n = 0) ∧ m % 0xffff = n % 0xffff := by
  rw [foldCarries_eq, foldCarries_eq]
  split <;> split <;> omega

/-- A sum may be folded before more is added to it. -/
theorem foldCarries_foldCarries_add (m n : Nat) : foldCarries (foldCarries m + n) = foldCarries (m + n) := by
  rw [foldCarries_eq_iff, foldCarries_eq m]
  split <;> omega

theorem internetChecksum_eq_iff {x y : Bytes} {m n : Nat} :
    internetChecksum x m = internetChecksum y n ↔ foldCarries (m + wordSum x) = foldCarries (n + wordSum y) := by
  have hx := foldCarries_le (m + wordSum x)
  have hy := foldCarries_le (n + wordSum y)
  unfold internetChecksum
  omega

theorem foldCarries_add_complement (n : Nat) : foldCarries (n + (0xffff - foldCarries n)) = 0xffff := by
  simp only [foldCarries_eq]
  split <;> split <;> omega

/-! ## Sums of words -/

theorem wordSum_append {front : Bytes} (h : front.length % 2 = 0) (rest : Bytes) :
    wordSum (front ++ rest) = wordSum front + wordSum rest := by
  fun_induction wordSum front with
  | case1 => exact (Nat.zero_add _).symm
  | case2 b => cases h
  | case3 a b front ih =>
    rw [List.length_cons, List.length_cons] at h
    rw [List.cons_append, List.cons_append, wordSum, ih (by omega)]
    omega

/-- A number of 16 bits is a word. -/
theorem wordSum_encode {n : Nat} (h : n < 0x10000) : wordSum ((NumberField.u16 .big).encode n) = n := by
  have hbytes : (NumberField.u16 .big).encode n = [UInt8.ofNat (n / 256), UInt8.ofNat n] := rfl
  simp only [hbytes, wordSum, UInt8.toNat_ofNat']
  omega

/-- The words of a window add up to less than 16 bits for each of them. -/
theorem wordSum_le (bytes : Bytes) : wordSum bytes ≤ 0xffff * ((bytes.length + 1) / 2) := by
  fun_induction wordSum bytes with
  | case1 => exact Nat.zero_le _
  | case2 b =>
    have := b.toNat_lt
    simp only [List.length_singleton]
    omega
  | case3 a b rest ih =>
    have := a.toNat_lt
    have := b.toNat_lt
    simp only [List.length_cons]
    omega

/-- A sum of 64 bits has room for a window of less than `2 ^ 40` bytes. -/
theorem add_wordSum_lt {bytes : Bytes} {initial : Nat} (hlength : bytes.length < 2 ^ 40) (hinitial : initial < 2 ^ 32) :
    initial + wordSum bytes < 2 ^ 64 := by
  have := wordSum_le bytes
  omega

section Patching

variable {window data : Bytes} {p : Nat}

/-- A word in place of another one. -/
theorem wordSum_overlay (heven : p % 2 = 0) (hroom : p + 2 ≤ window.length) (hdata : data.length = 2) :
    wordSum (window.overlay p data) = wordSum (window.overlay p (Bytes.zeros 2)) + wordSum data := by
  have htake : (window.take p).length % 2 = 0 := by rwa [List.length_take, Nat.min_eq_left (by omega)]
  have hsum (word : Bytes) (hword : word.length = 2) :
      wordSum (window.overlay p word) = wordSum (window.take p) + (wordSum word + wordSum (window.drop (p + 2))) := by
    rw [Bytes.overlay, hword, List.append_assoc, wordSum_append htake, wordSum_append (by rw [hword])]
  rw [hsum data hdata, hsum (Bytes.zeros 2) (Bytes.length_zeros 2), show wordSum (Bytes.zeros 2) = 0 from rfl]
  omega

/-- Of two overlays in one place the later one counts. -/
theorem overlay_overlay {first : Bytes} (hroom : p + first.length ≤ window.length) (hdata : data.length = first.length) :
    (window.overlay p first).overlay p data = window.overlay p data := by
  have htake : (window.take p).length = p := by rw [List.length_take, Nat.min_eq_left (by omega)]
  have hkeep : (window.overlay p first).take p = window.take p := by
    rw [Bytes.overlay, List.append_assoc, List.take_left' htake]
  have hrest : (window.overlay p first).drop (p + data.length) = window.drop (p + first.length) := by
    rw [hdata, Bytes.overlay, List.drop_left' (by rw [List.length_append, htake])]
  rw [Bytes.overlay, hkeep, hrest, Bytes.overlay, hdata]

end Patching

/-- **A patched checksum verifies.** The word at an even position of a window is zeroed, the checksum of the whole window is
taken, and it is written over that word, which a writer that stands anywhere after the word does by going back to it. The
window that results has the checksum zero, for a reader too. Windows of less than `2 ^ 40` bytes need no more than 64 bits
for their sums. -/
theorem internetChecksum_patched (window : Bytes) {p : Nat} (initial : Nat) (heven : p % 2 = 0)
    (hroom : p + 2 ≤ window.length) :
    let zeroed := window.overlay p (Bytes.zeros 2)
    let patched := zeroed.overlay p ((NumberField.u16 .big).encode (internetChecksum zeroed initial))
    internetChecksum patched initial = 0 ∧
      (∃ r, (Reader.atStart patched).checksum patched.length initial = .ok (0, r)) ∧
      (∀ w : Writer window.length, w.window = zeroed → p ≤ w.position →
        ∃ w', (do WriteStep.run (← w.prev (w.position - p)) (.checksum initial)) = .ok w' ∧ w'.window = patched) ∧
      (window.length < 2 ^ 40 → initial < 2 ^ 32 →
        initial + wordSum zeroed < 2 ^ 64 ∧ initial + wordSum patched < 2 ^ 64) := by
  intro zeroed patched
  have hzeroed : zeroed.length = window.length := Bytes.length_overlay hroom
  have hsum : initial + wordSum patched = initial + wordSum zeroed + internetChecksum zeroed initial := by
    have hpatched : patched = window.overlay p ((NumberField.u16 .big).encode (internetChecksum zeroed initial)) :=
      overlay_overlay hroom (NumberField.length_encode _ _)
    rw [hpatched, wordSum_overlay heven hroom (NumberField.length_encode _ _),
      wordSum_encode (by unfold internetChecksum; omega), Nat.add_assoc]
  have hverifies : internetChecksum patched initial = 0 := by
    unfold internetChecksum at hsum ⊢
    rw [hsum, foldCarries_add_complement]
  refine ⟨hverifies, ?_, ?_, ?_⟩
  · obtain ⟨r, hr, -⟩ := Reader.take_of_le (r := Reader.atStart patched) (n := patched.length) (Nat.le_refl _)
    have hall : (patched.drop (Reader.atStart patched).position).take patched.length = patched := List.take_length
    exact ⟨r, by rw [Reader.checksum, hr, hall, ← hverifies]; rfl⟩
  · intro w hw hp
    -- going back leaves the window alone, so the sum is taken with the word zeroed
    obtain ⟨w₁, hw₁, hwindow, hposition, -⟩ := Writer.prev_of_le (w := w) (n := w.position - p) (Nat.sub_le _ _)
    have hplace : w₁.position = p := by omega
    have hfits : ((NumberField.u16 .big).encode (internetChecksum zeroed initial)).length ≤ w₁.remaining := by
      rw [NumberField.length_encode, NumberField.width, Writer.remaining]
      omega
    obtain ⟨w₂, hw₂, hresult, -⟩ := Writer.bytes_of_le hfits
    rw [hwindow, hw, hplace] at hresult
    refine ⟨w₂, ?_, hresult⟩
    rw [hw₁]
    change w₁.bytes ((NumberField.u16 .big).encode (internetChecksum w₁.window initial)) = .ok w₂
    rw [hwindow, hw, hw₂]
  · intro hlength hinitial
    have hpatched : patched.length = zeroed.length :=
      Bytes.length_overlay (by rw [NumberField.length_encode, NumberField.width, hzeroed]; exact hroom)
    exact ⟨add_wordSum_lt (by rwa [hzeroed]) hinitial, add_wordSum_lt (by rwa [hpatched, hzeroed]) hinitial⟩

/-- A writer at the end of a window of five zeros, whose sum is zero. -/
def afterZeros : Writer 5 := ⟨Bytes.zeros 5, 5, 5, rfl, Nat.le_refl 5, Nat.le_refl 5⟩

theorem internetChecksum_patched_zeros :
    (2 % 2 = 0 ∧ 2 + 2 ≤ (Bytes.zeros 5).length) ∧ internetChecksum (Bytes.zeros 5) 0 = 0xffff ∧
      internetChecksum [0, 0, 0xff, 0xff, 0] 0 = 0 ∧
      ∃ w', (do WriteStep.run (← afterZeros.prev 3) (.checksum 0)) = .ok w' ∧ w'.window = [0, 0, 0xff, 0xff, 0] := by
  have hsum : internetChecksum (Bytes.zeros 5) 0 = 0xffff := by
    rw [internetChecksum, foldCarries_eq]
    rfl
  obtain ⟨hverifies, -, hwriter, -⟩ := internetChecksum_patched (Bytes.zeros 5) (p := 2) 0 (by decide) (by decide)
  obtain ⟨w', hw', hwindow⟩ := hwriter afterZeros rfl (by decide)
  change internetChecksum ((Bytes.zeros 5).overlay 2 ((NumberField.u16 .big).encode (internetChecksum (Bytes.zeros 5) 0)))
    0 = 0 at hverifies
  change w'.window =
    (Bytes.zeros 5).overlay 2 ((NumberField.u16 .big).encode (internetChecksum (Bytes.zeros 5) 0)) at hwindow
  rw [hsum] at hverifies hwindow
  exact ⟨⟨by decide, by decide⟩, hsum, hverifies, w', hw', hwindow⟩

end SimKernel
