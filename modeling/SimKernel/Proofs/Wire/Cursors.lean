import SimKernel.Proofs.Buffer.Storage
import SimKernel.Wire.Formats

/-!
# Fields one after the other

What a writer that has room does (`Writer.bytes_of_le`, `Writer.skip_of_le`, `Writer.prev_of_le`) and what a reader does
(`Reader.take_of_le`), in terms of window and position.

A writer that has filled the first bytes of a window of zeros (`Writer.Filled`) fills the next ones with a field, if it has
room; a reader before known bytes (`Reader.Before`) reads them as the field that they are the bytes of.
-/

namespace SimKernel

namespace Writer

variable {size : Nat} {w : Writer size} {done : Bytes}

/-- A writer with room writes the bytes at its position and goes on behind them. -/
theorem bytes_of_le {data : Bytes} (h : data.length ≤ w.remaining) :
    ∃ w', w.bytes data = .ok w' ∧ w'.window = w.window.overlay w.position data ∧
      w'.position = w.position + data.length ∧ w'.written = max w.written (w.position + data.length) :=
  ⟨_, dif_pos h, rfl, rfl, rfl⟩

/-- Bytes that are passed over stay as they are, and count as written. -/
theorem skip_of_le {n : Nat} (h : n ≤ w.remaining) :
    ∃ w', w.skip n = .ok w' ∧ w'.window = w.window ∧ w'.position = w.position + n ∧
      w'.written = max w.written (w.position + n) :=
  ⟨_, dif_pos h, rfl, rfl, rfl⟩

/-- A writer that goes back has still written what it has written. -/
theorem prev_of_le {n : Nat} (h : n ≤ w.position) :
    ∃ w', w.prev n = .ok w' ∧ w'.window = w.window ∧ w'.position = w.position - n ∧ w'.written = w.written :=
  ⟨_, if_pos h, rfl, rfl, rfl⟩

/-- The writer has written `done`, and zeros are left. -/
structure Filled (w : Writer size) (done : Bytes) : Prop where
  window : w.window = done ++ Bytes.zeros (size - done.length)
  position : w.position = done.length
  written : w.written = done.length

theorem filled_ofWindow (n : Nat) : Filled (ofWindow (Bytes.zeros n)) [] where
  window := congrArg Bytes.zeros (Bytes.length_zeros n).symm
  position := rfl
  written := rfl

/-- Bytes for which there is room come behind those already written, and the zeros get fewer by them. -/
theorem Filled.bytes (h : Filled w done) {data : Bytes} (hle : done.length + data.length ≤ size) :
    ∃ w', w.bytes data = .ok w' ∧ Filled w' (done ++ data) := by
  have hroom : data.length ≤ w.remaining := by
    rw [remaining, h.position]
    omega
  have hzeros : Bytes.zeros (size - done.length) = Bytes.zeros data.length ++ Bytes.zeros (size - (done ++ data).length) := by
    rw [Bytes.zeros, Bytes.zeros, Bytes.zeros, List.replicate_append_replicate, List.length_append]
    congr 1
    omega
  refine ⟨_, dif_pos hroom, ?_, ?_, ?_⟩
  · dsimp only
    rw [h.window, h.position, hzeros, Bytes.overlay, List.take_left, ← List.drop_drop, List.drop_left,
      List.drop_left' (Bytes.length_zeros _)]
  · dsimp only
    rw [List.length_append, h.position]
  · dsimp only
    rw [List.length_append, h.position, h.written]
    omega

/-- A number takes as many bytes as its field is wide. -/
theorem Filled.number (h : Filled w done) (field : NumberField) (n : Nat) (hle : done.length + field.width ≤ size) :
    ∃ w', w.number field n = .ok w' ∧ Filled w' (done ++ field.encode n) :=
  h.bytes (by rwa [NumberField.length_encode])

/-- The whole window has been written. -/
theorem Filled.whole (h : Filled w done) (hsize : done.length = size) : w.window = done ∧ w.written = size := by
  refine ⟨?_, h.written.trans hsize⟩
  rw [h.window, hsize, Nat.sub_self]
  exact List.append_nil _

end Writer

namespace Reader

variable {window rest : Bytes} {r : Reader window}

/-- A reader with enough bytes before it takes them from its position on. -/
theorem take_of_le {n : Nat} (h : n ≤ r.remaining) :
    ∃ r', r.take n = .ok ((window.drop r.position).take n, r') ∧ r'.position = r.position + n ∧ r'.low = r.low ∧
      r'.high = max r.high (r.position + n) :=
  ⟨_, dif_pos h, rfl, rfl, rfl⟩

/-- What the reader has before it. -/
def Before (r : Reader window) (rest : Bytes) : Prop := window.drop r.position = rest

theorem before_atStart (h : window = rest) : Before (atStart window) rest := h

/-- The last bytes of a window are before the reader that goes back from its end by their number. -/
theorem prev_atEnd (front data : Bytes) :
    ∃ r, (atEnd (front ++ data)).prev data.length = .ok r ∧ Before r data ∧ r.low = front.length := by
  have hlength : (front ++ data).length - data.length = front.length := by rw [List.length_append, Nat.add_sub_cancel]
  have hle : data.length ≤ (front ++ data).length := by
    rw [List.length_append]
    exact Nat.le_add_left _ _
  refine ⟨_, if_pos hle, ?_, ?_⟩
  · exact (congrArg (List.drop · (front ++ data)) hlength).trans List.drop_left
  · exact (Nat.min_eq_right (Nat.sub_le _ _)).trans hlength

/-- A reader takes the bytes that are known to be before it, and has the rest before it then. -/
theorem Before.take {data : Bytes} (h : Before r (data ++ rest)) :
    ∃ r', r.take data.length = .ok (data, r') ∧ Before r' rest ∧ r'.position = r.position + data.length ∧
      r'.low = r.low ∧ r'.high = max r.high (r.position + data.length) := by
  have hlength := congrArg List.length h
  rw [List.length_drop, List.length_append] at hlength
  have hroom : data.length ≤ r.remaining := by
    rw [remaining]
    omega
  unfold Reader.take
  rw [dif_pos hroom, h, List.take_left]
  refine ⟨_, rfl, ?_, rfl, rfl, rfl⟩
  unfold Before
  dsimp only
  rw [← List.drop_drop, h, List.drop_left]

/-- A number that fits its field is read as that number. -/
theorem Before.number {field : NumberField} {n : Nat} (hn : n < 1 <<< (8 * field.width))
    (h : Before r (field.encode n ++ rest)) :
    ∃ r', r.number field = .ok (n, r') ∧ Before r' rest ∧ r'.position = r.position + field.width ∧
      r'.low = r.low ∧ r'.high = max r.high (r.position + field.width) := by
  obtain ⟨r', hr, hrest, hposition, hlow, hhigh⟩ := h.take
  rw [NumberField.length_encode] at hr hposition hhigh
  refine ⟨r', ?_, hrest, hposition, hlow, hhigh⟩
  rw [Reader.number, hr]
  simp only [Except.map, NumberField.decode_encode, Nat.mod_eq_of_lt hn]

end Reader

end SimKernel
