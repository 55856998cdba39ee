import SimKernel.Buffer.Storage

/-!
# Storages byte by byte

What a slice of a storage shows after bytes were written into it (`Storage.slice_write_of_apart`,
`Storage.slice_write_within`), and the two ways in which a slice grows into the room beside it
(`Storage.slice_write_before`, `Storage.slice_write_after`).
-/

namespace SimKernel

/-! ## Overlays -/

theorem Bytes.getElem?_overlay {bytes data : Bytes} {start : Nat} (h : start + data.length ≤ bytes.length) (i : Nat) :
    (bytes.overlay start data)[i]? = if start ≤ i ∧ i < start + data.length then data[i - start]? else bytes[i]? := by
  have htake : (bytes.take start).length = start := by rw [List.length_take]; omega
  unfold overlay
  by_cases hlo : i < start
  · rw [if_neg (by omega), List.append_assoc, List.getElem?_append_left (by omega), List.getElem?_take_of_lt hlo]
  rw [List.append_assoc, List.getElem?_append_right (by omega), htake]
  by_cases hhi : i < start + data.length
  · rw [if_pos (by omega), List.getElem?_append_left (by omega)]
  · rw [if_neg (by omega), List.getElem?_append_right (by omega), List.getElem?_drop]
    congr 1
    omega

/-- Bytes in place of the first ones. -/
theorem Bytes.overlay_append_left {old data : Bytes} (rest : Bytes) (h : data.length = old.length) :
    (old ++ rest).overlay 0 data = data ++ rest := by
  simp [overlay, h]

/-- Bytes in place of the last ones. -/
theorem Bytes.overlay_append_right {old data : Bytes} (front : Bytes) (h : data.length = old.length) :
    (front ++ old).overlay front.length data = front ++ data := by
  simp [overlay, h]

/-- Bytes in place of those in the middle. -/
theorem Bytes.overlay_append {old data : Bytes} (front rest : Bytes) (h : data.length = old.length) :
    (front ++ old ++ rest).overlay front.length data = front ++ data ++ rest := by
  simp [overlay, h]

theorem Bytes.zeros_add (m n : Nat) : zeros (m + n) = zeros m ++ zeros n :=
  List.replicate_append_replicate.symm

@[simp] theorem Bytes.length_zeros (n : Nat) : (zeros n).length = n := List.length_replicate

namespace Storage

variable {s : Storage} {data : Bytes} {start stop place : Nat}

/-! ## Slices -/

theorem getElem?_slice (s : Storage) (start stop i : Nat) :
    (s.slice start stop)[i]? = if i < stop - start then s.bytes[start + i]? else none := by
  rw [slice, List.getElem?_take]
  split
  · rw [List.getElem?_drop]
  · rfl

theorem length_slice (h : stop ≤ s.bytes.length) : (s.slice start stop).length = stop - start := by
  rw [slice, List.length_take, List.length_drop]
  omega

/-- A part of a slice. -/
theorem slice_slice (s : Storage) (start stop first last : Nat) (h : start + last ≤ stop) :
    s.slice (start + first) (start + last) = ((s.slice start stop).drop first).take (last - first) := by
  apply List.ext_getElem?
  intro i
  simp only [getElem?_slice, List.getElem?_take, List.getElem?_drop]
  by_cases hi : i < last - first
  · rw [if_pos (by omega), if_pos hi, if_pos (by omega), Nat.add_assoc]
  · rw [if_neg (by omega), if_neg hi]

@[simp] theorem length_write (h : place + data.length ≤ s.bytes.length) :
    (s.write place data).bytes.length = s.bytes.length :=
  Bytes.length_overlay h

/-- Writing beside a slice. -/
theorem slice_write_of_apart (h : place + data.length ≤ s.bytes.length)
    (hi : ∀ i, start ≤ i → i < stop → i < place ∨ place + data.length ≤ i) :
    (s.write place data).slice start stop = s.slice start stop := by
  apply List.ext_getElem?
  intro i
  simp only [getElem?_slice, write, Bytes.getElem?_overlay h]
  split
  case isFalse => rfl
  case isTrue hlt => rw [if_neg]; have := hi (start + i) (by omega) (by omega); omega

/-- Writing inside a slice. -/
theorem slice_write_within {offset : Nat} (hle : stop ≤ s.bytes.length) (h : start + (offset + data.length) ≤ stop) :
    (s.write (start + offset) data).slice start stop = (s.slice start stop).overlay offset data := by
  have hlen : (s.slice start stop).length = stop - start := length_slice hle
  apply List.ext_getElem?
  intro i
  rw [Bytes.getElem?_overlay (by omega)]
  simp only [getElem?_slice, write, Bytes.getElem?_overlay (show start + offset + data.length ≤ s.bytes.length by omega)]
  by_cases hi : i < stop - start
  · rw [if_pos hi, if_pos hi]
    by_cases hin : offset ≤ i ∧ i < offset + data.length
    · rw [if_pos (by omega), if_pos hin]
      congr 1
      omega
    · rw [if_neg (by omega), if_neg hin]
  · rw [if_neg hi, if_neg (by omega), if_neg hi]

/-- A slice that grows at its start. -/
theorem slice_write_before (data : Bytes) (h : data.length ≤ start) (hss : start ≤ stop) (hle : stop ≤ s.bytes.length) :
    (s.write (start - data.length) data).slice (start - data.length) stop = data ++ s.slice start stop := by
  apply List.ext_getElem?
  intro i
  simp only [getElem?_slice, write,
    Bytes.getElem?_overlay (show start - data.length + data.length ≤ s.bytes.length by omega)]
  by_cases hi : i < data.length
  · rw [List.getElem?_append_left hi, if_pos (by omega), if_pos (by omega)]
    congr 1
    omega
  · rw [List.getElem?_append_right (by omega), getElem?_slice]
    by_cases hi' : i - data.length < stop - start
    · rw [if_pos (by omega), if_neg (by omega), if_pos hi']
      congr 1
      omega
    · rw [if_neg (by omega), if_neg hi']

/-- A slice that grows at its end. -/
theorem slice_write_after (data : Bytes) (hss : start ≤ stop) (hle : stop + data.length ≤ s.bytes.length) :
    (s.write stop data).slice start (stop + data.length) = s.slice start stop ++ data := by
  have hlen : (s.slice start stop).length = stop - start := length_slice (by omega)
  apply List.ext_getElem?
  intro i
  simp only [getElem?_slice, write, Bytes.getElem?_overlay hle]
  by_cases hi : i < stop - start
  · rw [List.getElem?_append_left (by omega), getElem?_slice, if_pos (by omega), if_neg (by omega), if_pos hi]
  · rw [List.getElem?_append_right (by omega), hlen]
    by_cases hi' : i < stop + data.length - start
    · rw [if_pos hi', if_pos (by omega)]
      congr 1
      omega
    · rw [if_neg hi', List.getElem?_eq_none (by omega)]

end Storage

end SimKernel
