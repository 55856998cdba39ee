import Mathlib.Data.List.Basic
import Mathlib.Data.List.Induction
import Mathlib.Order.Bounds.Basic
import SimKernel.Proofs.Wire.Cursors
import SimKernel.Wire.Steps

/-!
# How far a cursor went

Where steps take a cursor is told by their sizes (`ReadStep.move?`, `WriteStep.move?`), and what they write by their
data (`WriteStep.data`). A step that would leave the window is refused, and the next one goes on from the same place.

* The marks of a reader are the ends of the positions that it had (`Reader.Tracks`, `Reader.tracks_foldl`).
* The mark of a writer is the greatest position that it had, and every byte of its window is the one that was last
  written over it, if any was (`Writer.Tracks`, `Writer.tracks_foldl`).

The main statement puts the two together (`cursors_tracked`).
-/

namespace SimKernel

/-! ## Where steps go -/

namespace Cursor

/-- The position that comes `n` bytes later, if the window has so many bytes. -/
def ahead? (size position n : Nat) : Option Nat :=
  if position + n ≤ size then some (position + n) else none

/-- The position that comes `n` bytes earlier, if there are so many. -/
def behind? (position n : Nat) : Option Nat :=
  if n ≤ position then some (position - n) else none

end Cursor

/-- A further step adds the place to which it leads from the last one. -/
theorem scanl_concat {β ο : Type} (f : β → ο → β) (b : β) (steps : List ο) (step : ο) :
    (steps ++ [step]).scanl f b = steps.scanl f b ++ [f (steps.foldl f b) step] := by
  rw [List.scanl_append]
  rfl

theorem setOf_mem_concat (positions : List Nat) (q : Nat) : {p | p ∈ positions ++ [q]} = insert q {p | p ∈ positions} := by
  ext p
  simp [or_comm]

theorem setOf_mem_singleton (p : Nat) : {q | q ∈ [p]} = ({p} : Set Nat) :=
  Set.ext fun _ => List.mem_singleton

open Cursor

namespace ReadStep

/-- Where the step takes a cursor, unless it is refused. -/
def move? (size position : Nat) : ReadStep → Option Nat
  | number field => ahead? size position field.width
  | bytes n | skip n | checksum n _ => ahead? size position n
  | prev n => behind? position n
  | peekChecksum n _ => (ahead? size position n).map fun _ => position
  | fail _ => none
  | attempt step => some ((step.move? size position).getD position)

/-- The position after the step; a step that is refused stays. -/
def next (size position : Nat) (step : ReadStep) : Nat := (step.move? size position).getD position

/-- The reader after the step; a step that is refused leaves it as it was. -/
def settle {window : Bytes} (r : Reader window) (step : ReadStep) : Reader window :=
  match step.run r with
  | .ok (_, r) => r
  | .error _ => r

end ReadStep

namespace WriteStep

/-- Where the step takes a cursor, unless it is refused. -/
def move? (size position : Nat) : WriteStep → Option Nat
  | number field _ => ahead? size position field.width
  | bytes b => ahead? size position b.length
  | repeated _ n | skip n => ahead? size position n
  | prev n => behind? position n
  | checksum _ => ahead? size position (NumberField.u16 .big).width
  | look => some position
  | fail _ => none

/-- The position after the step; a step that is refused stays. -/
def next (size position : Nat) (step : WriteStep) : Nat := (step.move? size position).getD position

/-- What the step writes at the cursor. -/
def data (window : Bytes) : WriteStep → Bytes
  | number field n => field.encode n
  | bytes b => b
  | repeated byte n => List.replicate n byte
  | checksum initial => (NumberField.u16 .big).encode (internetChecksum window initial)
  | skip _ | prev _ | look | fail _ => []

/-- The writer after the step; a step that is refused leaves it as it was. -/
def settle {size : Nat} (w : Writer size) (step : WriteStep) : Writer size :=
  match step.run w with
  | .ok w => w
  | .error _ => w

end WriteStep

/-! ## Readers -/

namespace Reader

variable {window : Bytes} {r r' : Reader window} {γ δ : Type}

/-- The reader moves to a position and takes its marks along, or is refused. -/
inductive Goes (r : Reader window) : Except PacketError (γ × Reader window) → Option Nat → Prop
  | moved {answer : γ} {r' : Reader window} (hlow : r'.low = min r.low r'.position)
      (hhigh : r'.high = max r.high r'.position) : Goes r (.ok (answer, r')) (some r'.position)
  | refused (e : PacketError) : Goes r (.error e) none

/-- What is made of the answer is of no account for the move. -/
theorem Goes.map {x : Except PacketError (γ × Reader window)} {target : Option Nat} (h : r.Goes x target) (f : γ → δ) :
    r.Goes (x.map fun y => (f y.1, y.2)) target := by
  cases h with
  | moved hlow hhigh => exact .moved hlow hhigh
  | refused e => exact .refused e

/-- A reader that stays where it is has its position between its marks already. -/
theorem goes_stay (r : Reader window) (answer : γ) : r.Goes (.ok (answer, r)) (some r.position) :=
  .moved (Nat.min_eq_left r.low_le).symm (Nat.max_eq_left r.le_high).symm

theorem le_remaining_iff (r : Reader window) (n : Nat) : n ≤ r.remaining ↔ r.position + n ≤ window.length := by
  have hin := Nat.le_trans r.le_high r.high_le
  rw [remaining]
  omega

/-- Taking bytes moves the reader over them, if they are there. -/
theorem goes_take (r : Reader window) (n : Nat) : r.Goes (r.take n) (ahead? window.length r.position n) := by
  unfold ahead?
  split
  case isTrue hle =>
    obtain ⟨r', hr, hposition, hlow, hhigh⟩ := take_of_le ((r.le_remaining_iff n).2 hle)
    rw [hr, ← hposition]
    refine .moved ?_ (hposition ▸ hhigh)
    have := r.low_le
    omega
  case isFalse hlt =>
    rw [take, dif_neg (mt (r.le_remaining_iff n).1 hlt)]
    exact .refused _

/-- Going back moves only the lower mark. -/
theorem goes_prev (r : Reader window) (n : Nat) (answer : γ) :
    r.Goes ((r.prev n).map fun r => (answer, r)) (behind? r.position n) := by
  unfold prev behind?
  split
  case isTrue =>
    refine .moved rfl (Nat.max_eq_left ?_).symm
    exact Nat.le_trans (Nat.sub_le _ _) r.le_high
  case isFalse => exact .refused _

/-- By induction on the step: one that may fail goes where the step in it goes. -/
theorem goes_run (r : Reader window) (step : ReadStep) : r.Goes (step.run r) (step.move? window.length r.position) := by
  induction step with
  | number field => exact ((r.goes_take field.width).map field.decode).map (ReadResult.number field)
  | bytes n => exact (r.goes_take n).map ReadResult.bytes
  | checksum n initial => exact ((r.goes_take n).map (internetChecksum · initial)).map ReadResult.checksum
  | prev n => exact r.goes_prev n ReadResult.none
  | fail e => exact .refused e
  | skip n =>
    have h := r.goes_take n
    unfold ReadStep.run ReadStep.move? skip
    generalize r.take n = x, ahead? window.length r.position n = target at h
    cases h with
    | moved hlow hhigh => exact .moved hlow hhigh
    | refused e => exact .refused e
  | peekChecksum n initial =>
    have h := r.goes_take n
    unfold ReadStep.run ReadStep.move? checksum
    generalize r.take n = x, ahead? window.length r.position n = target at h
    cases h with
    | moved => exact r.goes_stay _
    | refused e => exact .refused e
  | attempt step ih =>
    unfold ReadStep.run ReadStep.move?
    generalize step.run r = x, step.move? window.length r.position = target at ih
    cases ih with
    | moved hlow hhigh => exact .moved hlow hhigh
    | refused e => exact r.goes_stay _

/-- A step is refused exactly if it would leave the window, or fails in any case. -/
theorem exists_error_iff (r : Reader window) (step : ReadStep) :
    (∃ e, step.run r = .error e) ↔ step.move? window.length r.position = none := by
  have h := r.goes_run step
  generalize step.run r = x, step.move? window.length r.position = target at h
  cases h with
  | moved => exact ⟨nofun, nofun⟩
  | refused e => exact ⟨fun _ => rfl, fun _ => ⟨e, rfl⟩⟩

/-- A step makes the new position one of those that the marks are the ends of, also if it is refused. -/
theorem marks_settle (r : Reader window) (step : ReadStep) :
    (step.settle r).position = step.next window.length r.position ∧
      (step.settle r).low = min r.low (step.next window.length r.position) ∧
      (step.settle r).high = max r.high (step.next window.length r.position) := by
  have h := r.goes_run step
  unfold ReadStep.settle ReadStep.next
  generalize step.run r = x, step.move? window.length r.position = target at h
  cases h with
  | moved hlow hhigh => exact ⟨rfl, hlow, hhigh⟩
  | refused e => exact ⟨rfl, (Nat.min_eq_left r.low_le).symm, (Nat.max_eq_left r.le_high).symm⟩

/-- The reader stands at the last of the positions, and its marks are the ends of them. -/
structure Tracks (r : Reader window) (positions : List Nat) : Prop where
  last : positions.getLast? = some r.position
  least : IsLeast {p | p ∈ positions} r.low
  greatest : IsGreatest {p | p ∈ positions} r.high

/-- One more step adds one more position. -/
theorem Tracks.settle {positions : List Nat} (h : r.Tracks positions) (step : ReadStep) :
    (step.settle r).Tracks (positions ++ [step.next window.length r.position]) := by
  obtain ⟨hposition, hlow, hhigh⟩ := r.marks_settle step
  refine ⟨by rw [hposition, List.getLast?_concat], ?_, ?_⟩
  · rw [hlow, Nat.min_comm, setOf_mem_concat]
    exact h.least.insert _
  · rw [hhigh, Nat.max_comm, setOf_mem_concat]
    exact h.greatest.insert _

/-- By induction on the steps, the last one first. -/
theorem tracks_foldl (hlow : r.low = r.position) (hhigh : r.high = r.position) (steps : List ReadStep) :
    (steps.foldl ReadStep.settle r).Tracks (steps.scanl (ReadStep.next window.length) r.position) := by
  induction steps using List.reverseRecOn with
  | nil =>
    refine ⟨rfl, ?_, ?_⟩
    · change IsLeast {p | p ∈ [r.position]} r.low
      rw [setOf_mem_singleton, hlow]
      exact isLeast_singleton
    · change IsGreatest {p | p ∈ [r.position]} r.high
      rw [setOf_mem_singleton, hhigh]
      exact isGreatest_singleton
  | append_singleton steps step ih =>
    have hposition := ih.last
    rw [List.getLast?_scanl] at hposition
    rw [List.foldl_concat, scanl_concat, Option.some.inj hposition]
    exact ih.settle step

end Reader

/-! ## Strokes -/

theorem Bytes.overlay_nil (bytes : Bytes) (start : Nat) : bytes.overlay start [] = bytes := by
  simp [overlay]

/-- Bytes that were written from a position on. -/
structure Stroke where
  start : Nat
  data : Bytes

/-- The byte that the stroke puts in a place, if it covers it. -/
def Stroke.byte? (s : Stroke) (i : Nat) : Option UInt8 :=
  if s.start ≤ i then s.data[i - s.start]? else none

/-- Strokes on one window, the last first. -/
abbrev Strokes := List Stroke

namespace Strokes

/-- The byte that was last written over a place, if one was. -/
def over? (strokes : Strokes) (i : Nat) : Option UInt8 :=
  strokes.findSome? (·.byte? i)

/-- The window with what was last written over each of its bytes. -/
def paint (strokes : Strokes) (window : Bytes) : Bytes :=
  window.mapIdx fun i b => (strokes.over? i).getD b

variable {strokes : Strokes} {s : Stroke} {window : Bytes}

/-- The last stroke hides all others where it covers a place. -/
theorem over?_cons (s : Stroke) (strokes : Strokes) (i : Nat) : over? (s :: strokes) i = (s.byte? i).or (strokes.over? i) := by
  rw [over?, List.findSome?_cons]
  cases s.byte? i <;> rfl

theorem getElem?_paint (strokes : Strokes) (window : Bytes) (i : Nat) :
    (strokes.paint window)[i]? = window[i]?.map fun b => (strokes.over? i).getD b :=
  List.getElem?_mapIdx

@[simp] theorem length_paint (strokes : Strokes) (window : Bytes) : (strokes.paint window).length = window.length :=
  List.length_mapIdx

theorem paint_nil (window : Bytes) : paint [] window = window := by
  apply List.ext_getElem?
  intro i
  rw [getElem?_paint]
  cases window[i]? <;> rfl

/-- A stroke that the window has room for replaces what was there. -/
theorem paint_cons (h : s.start + s.data.length ≤ window.length) :
    paint (s :: strokes) window = (strokes.paint window).overlay s.start s.data := by
  apply List.ext_getElem?
  intro i
  rw [Bytes.getElem?_overlay (by rwa [length_paint]), getElem?_paint, over?_cons, getElem?_paint, Stroke.byte?]
  by_cases hin : s.start ≤ i ∧ i < s.start + s.data.length
  · rw [if_pos hin, if_pos hin.1, List.getElem?_eq_getElem (show i - s.start < s.data.length by omega),
      List.getElem?_eq_getElem (show i < window.length by omega)]
    rfl
  · rw [if_neg hin]
    split
    case isTrue => rw [List.getElem?_eq_none (by omega), Option.none_or]
    case isFalse => rw [Option.none_or]

end Strokes

/-- The position and the strokes after a step on the window; a step that is refused leaves them as they were. -/
def WriteStep.mark (window : Bytes) (x : Nat × Strokes) (step : WriteStep) : Nat × Strokes :=
  match step.move? window.length x.1 with
  | some position => (position, ⟨x.1, step.data (x.2.paint window)⟩ :: x.2)
  | none => x

/-- The strokes are of no account for the position. -/
theorem WriteStep.mark_fst (window : Bytes) (x : Nat × Strokes) (step : WriteStep) :
    (step.mark window x).1 = step.next window.length x.1 := by
  unfold mark next
  cases step.move? window.length x.1 <;> rfl

/-! ## Writers -/

namespace Writer

variable {size : Nat} {w : Writer size} {window : Bytes}

/-- The writer writes `data` at its position, moves to another one and takes its mark along, or is refused. -/
inductive Goes (w : Writer size) (data : Bytes) : Except PacketError (Writer size) → Option Nat → Prop
  | moved {w' : Writer size} (hwindow : w'.window = w.window.overlay w.position data)
      (hwritten : w'.written = max w.written w'.position) (hreach : w.position + data.length ≤ w'.written) :
      Goes w data (.ok w') (some w'.position)
  | refused (e : PacketError) : Goes w data (.error e) none

theorem le_remaining_iff (w : Writer size) (n : Nat) : n ≤ w.remaining ↔ w.position + n ≤ size := by
  have hin := Nat.le_trans w.le_written w.written_le
  rw [remaining]
  omega

/-- Writing bytes moves the writer behind them, if there is room. -/
theorem goes_bytes (w : Writer size) (data : Bytes) : w.Goes data (w.bytes data) (ahead? size w.position data.length) := by
  unfold ahead?
  split
  case isTrue hle =>
    obtain ⟨w', hw, hwindow, hposition, hwritten⟩ := bytes_of_le ((w.le_remaining_iff data.length).2 hle)
    rw [hw, ← hposition]
    exact .moved hwindow (hposition ▸ hwritten) (hwritten ▸ Nat.le_max_right _ _)
  case isFalse hlt =>
    rw [bytes, dif_neg (mt (w.le_remaining_iff data.length).1 hlt)]
    exact .refused _

/-- A number is written in the bytes of its field. -/
theorem goes_number (w : Writer size) (field : NumberField) (n : Nat) :
    w.Goes (field.encode n) (w.number field n) (ahead? size w.position field.width) := by
  have h := w.goes_bytes (field.encode n)
  rwa [NumberField.length_encode] at h

/-- Repeated bytes are written like any others. -/
theorem goes_repeated (w : Writer size) (byte : UInt8) (n : Nat) :
    w.Goes (List.replicate n byte) (w.repeated byte n) (ahead? size w.position n) := by
  have h := w.goes_bytes (List.replicate n byte)
  rw [List.length_replicate] at h
  unfold repeated
  split
  case isTrue => exact h
  case isFalse hn =>
    rw [ahead?, if_neg (mt (w.le_remaining_iff n).2 hn)]
    exact .refused _

/-- The writer moves without writing. -/
theorem goes_past {w' : Writer size} (hwindow : w'.window = w.window) (hwritten : w'.written = max w.written w'.position) :
    w.Goes [] (.ok w') (some w'.position) := by
  refine .moved (by rw [hwindow, Bytes.overlay_nil]) hwritten ?_
  rw [hwritten]
  exact Nat.le_trans w.le_written (Nat.le_max_left _ _)

/-- Bytes that are passed over stay as they are. -/
theorem goes_skip (w : Writer size) (n : Nat) : w.Goes [] (w.skip n) (ahead? size w.position n) := by
  unfold ahead?
  split
  case isTrue hle =>
    obtain ⟨w', hw, hwindow, hposition, hwritten⟩ := skip_of_le ((w.le_remaining_iff n).2 hle)
    rw [hw, ← hposition]
    exact goes_past hwindow (hposition ▸ hwritten)
  case isFalse hlt =>
    rw [skip, dif_neg (mt (w.le_remaining_iff n).1 hlt)]
    exact .refused _

theorem goes_prev (w : Writer size) (n : Nat) : w.Goes [] (w.prev n) (behind? w.position n) := by
  unfold prev behind?
  split
  case isTrue => exact goes_past rfl (Nat.max_eq_left (Nat.le_trans (Nat.sub_le _ _) w.le_written)).symm
  case isFalse => exact .refused _

/-- Every step writes its data where the writer stands, and goes where it takes a cursor. -/
theorem goes_run (w : Writer size) (step : WriteStep) :
    w.Goes (step.data w.window) (step.run w) (step.move? size w.position) := by
  cases step with
  | number field n => exact w.goes_number field n
  | bytes b => exact w.goes_bytes b
  | repeated byte n => exact w.goes_repeated byte n
  | skip n => exact w.goes_skip n
  | prev n => exact w.goes_prev n
  | checksum initial => exact w.goes_number _ _
  | look => exact goes_past rfl (Nat.max_eq_left w.le_written).symm
  | fail e => exact .refused e

/-- A step is refused exactly if it would leave the window, or fails in any case. -/
theorem exists_error_iff (w : Writer size) (step : WriteStep) :
    (∃ e, step.run w = .error e) ↔ step.move? size w.position = none := by
  have h := w.goes_run step
  generalize step.run w = x, step.move? size w.position = target at h
  cases h with
  | moved => exact ⟨nofun, nofun⟩
  | refused e => exact ⟨fun _ => rfl, fun _ => ⟨e, rfl⟩⟩

/-- The writer stands at the last of the positions, its mark is the greatest of them, and its window is the one that the
strokes leave, which do not reach beyond the mark. -/
structure Tracks (w : Writer window.length) (positions : List Nat) (strokes : Strokes) : Prop where
  last : positions.getLast? = some w.position
  greatest : IsGreatest {p | p ∈ positions} w.written
  window_eq : w.window = strokes.paint window
  over?_eq_none : ∀ i, w.written ≤ i → strokes.over? i = none

/-- A writer begins at the start of its window, with no strokes. -/
theorem tracks_ofWindow (window : Bytes) : (ofWindow window).Tracks [0] [] where
  last := rfl
  greatest := by
    rw [setOf_mem_singleton]
    exact isGreatest_singleton
  window_eq := (Strokes.paint_nil window).symm
  over?_eq_none _ _ := rfl

theorem Tracks.settle {w : Writer window.length} {positions : List Nat} {strokes : Strokes}
    (h : w.Tracks positions strokes) (step : WriteStep) :
    (step.settle w).Tracks (positions ++ [step.next window.length w.position]) (step.mark window (w.position, strokes)).2 := by
  have hgoes := w.goes_run step
  unfold WriteStep.settle WriteStep.next WriteStep.mark
  rw [h.window_eq] at hgoes
  generalize step.data (strokes.paint window) = data at hgoes ⊢
  generalize step.run w = x, step.move? window.length w.position = target at hgoes
  cases hgoes with
  | @moved w' hwindow hwritten hreach =>
    refine ⟨List.getLast?_concat, ?_, ?_, ?_⟩
    · change IsGreatest _ w'.written
      rw [hwritten, Nat.max_comm, setOf_mem_concat]
      exact h.greatest.insert _
    · change w'.window = _
      rw [Strokes.paint_cons (Nat.le_trans hreach w'.written_le), hwindow, h.window_eq]
    · intro i hi
      change w'.written ≤ i at hi
      have hold : w.written ≤ i := by omega
      rw [Strokes.over?_cons, h.over?_eq_none i hold, Option.or_none]
      unfold Stroke.byte?
      split
      case isTrue => exact List.getElem?_eq_none (by dsimp only; omega)
      case isFalse => rfl
  | refused e =>
    refine ⟨List.getLast?_concat, ?_, h.window_eq, h.over?_eq_none⟩
    rw [setOf_mem_concat]
    refine ⟨.inr h.greatest.1, ?_⟩
    rintro p (rfl | hp)
    · exact w.le_written
    · exact h.greatest.2 hp

/-- By induction on the steps, the last one first. -/
theorem tracks_foldl (window : Bytes) (steps : List WriteStep) :
    (steps.foldl WriteStep.settle (ofWindow window)).Tracks (steps.scanl (WriteStep.next window.length) 0)
      (steps.foldl (WriteStep.mark window) (0, [])).2 := by
  induction steps using List.reverseRecOn with
  | nil => exact tracks_ofWindow window
  | append_singleton steps step ih =>
    have hposition := ih.last
    rw [List.getLast?_scanl] at hposition
    have hmark : (steps.foldl (WriteStep.mark window) (0, [])).1 = steps.foldl (WriteStep.next window.length) 0 :=
      (List.foldl_hom Prod.fst fun x step => (step.mark_fst window x).symm).symm
    rw [Option.some.inj hposition] at hmark
    rw [List.foldl_concat, List.foldl_concat, scanl_concat, Option.some.inj hposition]
    have hnext := ih.settle step
    rw [← hmark] at hnext ⊢
    exact hnext

end Writer

/-! ## Courses of steps -/

/-- **The marks of cursors are exact.** Whatever steps are made on a window, some of them refused: a reader, which begins
at either end, stands where the steps take it and never leaves the window, and the greatest and the least position that it
had are those told by what it consumed from the start and from the end. A writer's mark is the greatest position that it
had; the bytes behind the mark are as they were at first, and each byte before it is the one that was last written over
it, or as it was at first if none was. A step is refused exactly if it would leave the window, or fails in any case; then
nothing of the cursor changes. -/
theorem cursors_tracked (window : Bytes) :
    (∀ r₀ ∈ [Reader.atStart window, Reader.atEnd window], ∀ steps : List ReadStep,
      let r := steps.foldl ReadStep.settle r₀
      let positions := steps.scanl (ReadStep.next window.length) r₀.position
      (r.low ≤ r.position ∧ r.position ≤ r.high ∧ r.high ≤ window.length) ∧ positions.getLast? = some r.position ∧
        IsGreatest {p | p ∈ positions} r.consumedFromStart ∧
        IsLeast {p | p ∈ positions} (window.length - r.consumedFromEnd) ∧
        ∀ step : ReadStep, ((∃ e, step.run r = .error e) ↔ step.move? window.length r.position = none) ∧
          ∀ e, step.run r = .error e → (steps ++ [step]).foldl ReadStep.settle r₀ = r) ∧
    ∀ steps : List WriteStep,
      let w := steps.foldl WriteStep.settle (Writer.ofWindow window)
      let positions := steps.scanl (WriteStep.next window.length) 0
      let strokes := (steps.foldl (WriteStep.mark window) (0, [])).2
      positions.getLast? = some w.position ∧ IsGreatest {p | p ∈ positions} w.written ∧ w.written ≤ window.length ∧
        (∀ i, w.written ≤ i → w.window[i]? = window[i]?) ∧
        (∀ i, i < w.written → w.window[i]? = (strokes.over? i).or window[i]?) ∧
        ∀ step : WriteStep, ((∃ e, step.run w = .error e) ↔ step.move? window.length w.position = none) ∧
          ∀ e, step.run w = .error e → (steps ++ [step]).foldl WriteStep.settle (Writer.ofWindow window) = w := by
  constructor
  · intro r₀ hr₀ steps r positions
    have hbegin : r₀.low = r₀.position ∧ r₀.high = r₀.position := by
      rcases List.mem_pair.1 hr₀ with rfl | rfl <;> exact ⟨rfl, rfl⟩
    have htracks : r.Tracks positions := Reader.tracks_foldl hbegin.1 hbegin.2 steps
    have hlow : window.length - r.consumedFromEnd = r.low :=
      Nat.sub_sub_self (Nat.le_trans r.low_le (Nat.le_trans r.le_high r.high_le))
    refine ⟨⟨r.low_le, r.le_high, r.high_le⟩, htracks.last, htracks.greatest, hlow ▸ htracks.least, fun step => ?_⟩
    refine ⟨r.exists_error_iff step, fun e he => ?_⟩
    rw [List.foldl_concat]
    change step.settle r = r
    rw [ReadStep.settle, he]
  · intro steps w positions strokes
    have htracks : w.Tracks positions strokes := Writer.tracks_foldl window steps
    have hbytes (i : Nat) : w.window[i]? = window[i]?.map fun b => (strokes.over? i).getD b := by
      rw [htracks.window_eq, Strokes.getElem?_paint]
    refine ⟨htracks.last, htracks.greatest, w.written_le, fun i hi => ?_, fun i hi => ?_, fun step => ?_⟩
    · rw [hbytes, htracks.over?_eq_none i hi]
      cases window[i]? <;> rfl
    · rw [hbytes, List.getElem?_eq_getElem (Nat.lt_of_lt_of_le hi w.written_le)]
      cases strokes.over? i <;> rfl
    · refine ⟨w.exists_error_iff step, fun e he => ?_⟩
      rw [List.foldl_concat]
      change step.settle w = w
      rw [WriteStep.settle, he]

/-- A window of six bytes. -/
def sixBytes : Bytes := [1, 2, 3, 4, 5, 6]

/-- The last two bytes, after which there is nothing more to read. -/
def lastTwo : List ReadStep := [.prev 2, .number (.u16 .big), .skip 1]

/-- Two fields with a byte between them that is passed over, a field that does not fit, and the first field once more. -/
def patchedField : List WriteStep :=
  [.number (.u16 .big) 0, .skip 1, .bytes [9], .number (.u32 .big) 7, .prev 4, .number (.u16 .big) 0xcafe]

theorem cursors_tracked_sixBytes :
    Reader.atEnd sixBytes ∈ [Reader.atStart sixBytes, Reader.atEnd sixBytes] ∧
      (∃ r : Reader sixBytes, lastTwo.foldl ReadStep.settle (Reader.atEnd sixBytes) = r ∧ r.consumedFromEnd = 2 ∧
        IsLeast {p | p ∈ [6, 4, 6, 6]} (sixBytes.length - r.consumedFromEnd) ∧
        ∃ e, (ReadStep.skip 1).run r = .error e) ∧
      ∃ w : Writer sixBytes.length, patchedField.foldl WriteStep.settle (Writer.ofWindow sixBytes) = w ∧
        IsGreatest {p | p ∈ [0, 2, 3, 4, 4, 0, 2]} w.written ∧ w.window[1]? = some 0xfe ∧ w.window[2]? = some 3 ∧
        w.window[4]? = sixBytes[4]? := by
  have hmem : Reader.atEnd sixBytes ∈ [Reader.atStart sixBytes, Reader.atEnd sixBytes] := by simp
  obtain ⟨hread, hwrite⟩ := cursors_tracked sixBytes
  obtain ⟨-, -, -, hleast, hrefused⟩ := hread _ hmem lastTwo
  obtain ⟨-, hgreatest, -, hbehind, hbefore, -⟩ := hwrite patchedField
  exact ⟨hmem, ⟨_, rfl, rfl, hleast, (hrefused (.skip 1)).1.2 rfl⟩, _, rfl, hgreatest,
    (hbefore 1 (by decide)).trans rfl, (hbefore 2 (by decide)).trans rfl, hbehind 4 (by decide)⟩

end SimKernel
