import Mathlib.Algebra.GroupWithZero.Nat
import SimKernel.Proofs.Wire.Checksum

/-!
# Checksums piece by piece

The complement of a checksum is the folded sum of the words, and it can be handed on as the sum with which the next piece
begins (`handOn`). What any number of pieces hand on folds to the sum of all their words (`foldCarries_foldl_handOn`),
so folding early changes nothing, and neither does the order of the pieces (`foldl_handOn_perm`).

Pieces of an even length are cut between two words. The checksum of what follows them, begun with what they handed on, is the
checksum of the whole window (`internetChecksum_chained`).
-/

namespace SimKernel

/-- The sum with which the checksum of the next piece begins. -/
def handOn (sum : Nat) (piece : Bytes) : Nat :=
  0xffff - internetChecksum piece sum

theorem handOn_eq (sum : Nat) (piece : Bytes) : handOn sum piece = foldCarries (sum + wordSum piece) :=
  Nat.sub_sub_self (foldCarries_le _)

theorem handOn_right_comm (sum : Nat) (a b : Bytes) : handOn (handOn sum a) b = handOn (handOn sum b) a := by
  simp only [handOn_eq, foldCarries_foldCarries_add, Nat.add_right_comm]

/-! ## Any number of pieces -/

section Pieces

variable {pieces : List Bytes}

/-- What the pieces hand on has 32 bits if the sum with which they begin has. -/
theorem foldl_handOn_lt {initial : Nat} (h : initial < 2 ^ 32) (pieces : List Bytes) :
    pieces.foldl handOn initial < 2 ^ 32 := by
  induction pieces generalizing initial with
  | nil => exact h
  | cons piece pieces ih =>
    have hle : handOn initial piece ≤ 0xffff := Nat.sub_le _ _
    exact ih (by omega)

theorem foldCarries_foldl_handOn (pieces : List Bytes) (initial : Nat) :
    foldCarries (pieces.foldl handOn initial) = foldCarries (initial + (pieces.map wordSum).sum) := by
  induction pieces generalizing initial with
  | nil => rfl
  | cons piece pieces ih =>
    rw [List.foldl_cons, ih, handOn_eq, foldCarries_foldCarries_add, List.map_cons, List.sum_cons, Nat.add_assoc]

theorem foldl_handOn_perm {order : List Bytes} (h : order.Perm pieces) (initial : Nat) :
    order.foldl handOn initial = pieces.foldl handOn initial :=
  h.foldl_eq' (fun a _ b _ sum => handOn_right_comm sum a b) initial

/-- The words of pieces that are cut between two words. -/
theorem wordSum_flatten_append (heven : ∀ piece ∈ pieces, piece.length % 2 = 0) (last : Bytes) :
    wordSum (pieces.flatten ++ last) = (pieces.map wordSum).sum + wordSum last := by
  induction pieces with
  | nil => exact (Nat.zero_add _).symm
  | cons piece pieces ih =>
    rw [List.flatten_cons, List.append_assoc, wordSum_append (heven piece List.mem_cons_self),
      ih fun p hp => heven p (List.mem_cons_of_mem piece hp), List.map_cons, List.sum_cons, Nat.add_assoc]

/-- The last piece, begun with what the others handed on. -/
theorem internetChecksum_foldl_handOn (heven : ∀ piece ∈ pieces, piece.length % 2 = 0) (last : Bytes) (initial : Nat) :
    internetChecksum last (pieces.foldl handOn initial) = internetChecksum (pieces.flatten ++ last) initial := by
  rw [internetChecksum_eq_iff]
  calc foldCarries (pieces.foldl handOn initial + wordSum last)
      = foldCarries (foldCarries (pieces.foldl handOn initial) + wordSum last) := (foldCarries_foldCarries_add _ _).symm
    _ = foldCarries (initial + (pieces.map wordSum).sum + wordSum last) := by
      rw [foldCarries_foldl_handOn, foldCarries_foldCarries_add]
    _ = foldCarries (initial + wordSum (pieces.flatten ++ last)) := by
      rw [wordSum_flatten_append heven, Nat.add_assoc]

end Pieces

/-- **Checksums are chained.** A window is cut into pieces of an even length and a last one of any length. The checksum of
the last piece, begun with the complement of the checksum of the piece before it, and so on back to the first one, is the
checksum of the whole window; and neither what the pieces hand on nor the checksum of the window depends on their order.
Windows of less than `2 ^ 40` bytes need no more than 64 bits for their sums, and what is handed on has 32 bits. -/
theorem internetChecksum_chained {pieces : List Bytes} (heven : ∀ piece ∈ pieces, piece.length % 2 = 0) (last : Bytes)
    (initial : Nat) :
    (∀ piece ∈ pieces,
      internetChecksum (piece ++ last) initial = internetChecksum last (0xffff - internetChecksum piece initial)) ∧
    internetChecksum (pieces.flatten ++ last) initial = internetChecksum last (pieces.foldl handOn initial) ∧
    (∀ order : List Bytes, order.Perm pieces →
      order.foldl handOn initial = pieces.foldl handOn initial ∧
        internetChecksum (order.flatten ++ last) initial = internetChecksum (pieces.flatten ++ last) initial) ∧
    ((pieces.flatten ++ last).length < 2 ^ 40 → initial < 2 ^ 32 →
      initial + wordSum (pieces.flatten ++ last) < 2 ^ 64 ∧
        ∀ front piece back, pieces ++ [last] = front ++ piece :: back →
          front.foldl handOn initial < 2 ^ 32 ∧ front.foldl handOn initial + wordSum piece < 2 ^ 64) := by
  refine ⟨?_, (internetChecksum_foldl_handOn heven last initial).symm, ?_, ?_⟩
  · intro piece hpiece
    have hone : ∀ p ∈ [piece], p.length % 2 = 0 := fun p hp => List.mem_singleton.1 hp ▸ heven piece hpiece
    have hchained := internetChecksum_foldl_handOn hone last initial
    rw [List.flatten_singleton] at hchained
    exact hchained.symm
  · intro order horder
    have hsame := foldl_handOn_perm horder initial
    refine ⟨hsame, ?_⟩
    rw [← internetChecksum_foldl_handOn (fun p hp => heven p (horder.mem_iff.1 hp)), hsame,
      internetChecksum_foldl_handOn heven]
  · intro hlength hinitial
    refine ⟨add_wordSum_lt hlength hinitial, ?_⟩
    intro front piece back hcut
    -- a piece is no longer than the window, of which it is a part
    have hwhole : pieces.flatten ++ last = front.flatten ++ (piece ++ back.flatten) := by
      have := congrArg List.flatten hcut
      rwa [List.flatten_append, List.flatten_singleton, List.flatten_append, List.flatten_cons] at this
    have hpiece : piece.length < 2 ^ 40 := by
      rw [hwhole, List.length_append, List.length_append] at hlength
      omega
    have hfront := foldl_handOn_lt hinitial front
    exact ⟨hfront, add_wordSum_lt hpiece hfront⟩

/-- Two pieces of whole words. -/
def wholeWords : List Bytes := [[0x00, 0x01, 0xf2, 0x03], [0xf4, 0xf5]]

theorem internetChecksum_chained_wholeWords :
    (∀ piece ∈ wholeWords, piece.length % 2 = 0) ∧
      internetChecksum [0x00, 0x01, 0xf2, 0x03, 0xf4, 0xf5, 0xf6] 0x1ffff = 0x2303 ∧
      internetChecksum [0xf6] (wholeWords.foldl handOn 0x1ffff) = 0x2303 ∧
      internetChecksum [0xf4, 0xf5, 0x00, 0x01, 0xf2, 0x03, 0xf6] 0x1ffff = 0x2303 := by
  have heven : ∀ piece ∈ wholeWords, piece.length % 2 = 0 := by decide
  have hwhole : internetChecksum [0x00, 0x01, 0xf2, 0x03, 0xf4, 0xf5, 0xf6] 0x1ffff = 0x2303 := by
    rw [internetChecksum, foldCarries_eq]
    rfl
  obtain ⟨-, hchained, horder, -⟩ := internetChecksum_chained heven [0xf6] 0x1ffff
  exact ⟨heven, hwhole, hchained.symm.trans hwhole,
    (horder [[0xf4, 0xf5], [0x00, 0x01, 0xf2, 0x03]] (.swap _ _ _)).2.trans hwhole⟩

end SimKernel
