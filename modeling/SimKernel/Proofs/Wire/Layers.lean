import SimKernel.Proofs.Wire.Cursors

/-!
# Layers

A value with the bytes that its format writes for it (`Layer`). Headers are read back from any bytes that start with them
(`Leading`), trailers from any bytes that end with them (`Trailing`); port headers are of the one kind and frame check
sequences of the other.
-/

namespace SimKernel

/-- A value that its format writes as `data` into a window of zeros. -/
structure Layer : Type 1 where
  {β : Type}
  codec : Codec β
  value : β
  data : Bytes
  length_data : data.length = codec.size value
  encodes : ∃ w, codec.encode value (Writer.ofWindow (Bytes.zeros (codec.size value))) = .ok w ∧
    w.window = data ∧ w.written = codec.size value

/-- A header that is read back from its bytes, whatever follows them. -/
structure Leading extends Layer where
  decodes : ∀ rest, ∃ r, codec.decode (Reader.atStart (data ++ rest)) = .ok (value, r) ∧
    r.consumedFromStart = data.length

/-- A trailer that is read back from its bytes, whatever stands before them. -/
structure Trailing extends Layer where
  decodes : ∀ front, ∃ r, codec.decode (Reader.atEnd (front ++ data)) = .ok (value, r) ∧
    r.consumedFromEnd = data.length

/-- A format that uses as many bytes as it says is not refused. -/
theorem Codec.checkSize_self {β : Type} (c : Codec β) (n : Nat) : c.checkSize n n = .ok () := if_pos rfl

/-- A window of zeros of the right size is filled with the bytes of the layer. -/
theorem Layer.fill_eq (x : Layer) : x.codec.fill x.value (Bytes.zeros (x.codec.size x.value)) = .ok x.data := by
  obtain ⟨w, hw, hdata, hwritten⟩ := x.encodes
  simp only [Codec.fill, hw, hwritten, Bytes.length_zeros, Codec.checkSize_self, hdata, bind, Except.bind, pure, Except.pure]

/-- A header is read from the start of any bytes that start with it, and takes just its own bytes. -/
theorem Leading.readStart_eq (x : Leading) (rest : Bytes) :
    x.codec.readStart (x.data ++ rest) = .ok (x.value, x.data.length) := by
  obtain ⟨r, hr, hconsumed⟩ := x.decodes rest
  simp only [Codec.readStart, hr, hconsumed, x.length_data, Codec.checkSize_self, bind, Except.bind, pure, Except.pure]

/-- A trailer is read from the end of any bytes that end with it, and takes just its own bytes. -/
theorem Trailing.readEnd_eq (x : Trailing) (front : Bytes) :
    x.codec.readEnd (front ++ x.data) = .ok (x.value, x.data.length) := by
  obtain ⟨r, hr, hconsumed⟩ := x.decodes front
  simp only [Codec.readEnd, hr, hconsumed, x.length_data, Codec.checkSize_self, bind, Except.bind, pure, Except.pure]

/-- The bytes of headers, the last one first. -/
def Leading.front : List Leading → Bytes
  | [] => []
  | x :: hs => x.data ++ front hs

/-- The bytes of trailers, the last one at the end. -/
def Trailing.back : List Trailing → Bytes
  | [] => []
  | x :: ts => back ts ++ x.data

/-! ## Formats -/

/-- The fields of the header are numbers of their sizes. -/
structure PortHeader.Fits (h : PortHeader) : Prop where
  source : h.source < 1 <<< 16
  destination : h.destination < 1 <<< 16
  length : h.length < 1 <<< 16
  sequence : h.sequence < 1 <<< 16

/-- The fields one after the other, each with its high byte first. -/
def PortHeader.data (h : PortHeader) : Bytes :=
  (NumberField.u16 .big).encode h.source ++ (NumberField.u16 .big).encode h.destination ++
    (NumberField.u16 .big).encode h.length ++ (NumberField.u16 .big).encode h.sequence

theorem PortHeader.length_data (h : PortHeader) : h.data.length = 8 := by
  simp only [data, List.length_append, NumberField.length_encode, NumberField.width]

/-- A port header fills its eight bytes, one field after the other. -/
theorem PortHeader.encodes (h : PortHeader) :
    ∃ w, PortHeader.codec.encode h (Writer.ofWindow (Bytes.zeros 8)) = .ok w ∧ w.window = h.data ∧ w.written = 8 := by
  have hroom : ∀ done : Bytes, done.length ≤ 6 → done.length + (NumberField.u16 .big).width ≤ (Bytes.zeros 8).length := by
    intro done hle
    rw [Bytes.length_zeros, NumberField.width]
    omega
  obtain ⟨w₁, hw₁, hf₁⟩ := (Writer.filled_ofWindow 8).number (.u16 .big) h.source (hroom _ (by decide))
  obtain ⟨w₂, hw₂, hf₂⟩ := hf₁.number (.u16 .big) h.destination (hroom _ (by simp [NumberField.width]))
  obtain ⟨w₃, hw₃, hf₃⟩ := hf₂.number (.u16 .big) h.length (hroom _ (by simp [NumberField.width]))
  obtain ⟨w₄, hw₄, hf₄⟩ := hf₃.number (.u16 .big) h.sequence (hroom _ (by simp [NumberField.width]))
  refine ⟨w₄, ?_, hf₄.whole h.length_data⟩
  simp only [PortHeader.codec, hw₁, hw₂, hw₃, hw₄, bind, Except.bind]

/-- A port header whose fields are numbers of their sizes is read back. The reader has then used its eight bytes and
nothing of what follows. -/
theorem PortHeader.decodes {h : PortHeader} (hfits : h.Fits) (rest : Bytes) :
    ∃ r, PortHeader.codec.decode (Reader.atStart (h.data ++ rest)) = .ok (h, r) ∧ r.consumedFromStart = h.data.length := by
  have hstart : (Reader.atStart (h.data ++ rest)).Before ((NumberField.u16 .big).encode h.source ++
      ((NumberField.u16 .big).encode h.destination ++
        ((NumberField.u16 .big).encode h.length ++ ((NumberField.u16 .big).encode h.sequence ++ rest)))) :=
    Reader.before_atStart (by simp only [data, List.append_assoc])
  obtain ⟨r₁, hr₁, hb₁, hp₁, -, hh₁⟩ := hstart.number hfits.source
  obtain ⟨r₂, hr₂, hb₂, hp₂, -, hh₂⟩ := hb₁.number hfits.destination
  obtain ⟨r₃, hr₃, hb₃, hp₃, -, hh₃⟩ := hb₂.number hfits.length
  obtain ⟨r₄, hr₄, -, -, -, hh₄⟩ := hb₃.number hfits.sequence
  refine ⟨r₄, ?_, ?_⟩
  · simp only [PortHeader.codec, hr₁, hr₂, hr₃, hr₄, bind, Except.bind, pure, Except.pure]
  · rw [Reader.consumedFromStart, hh₄, hh₃, hh₂, hh₁, hp₃, hp₂, hp₁, h.length_data]
    rfl

/-- A port header as a layer that starts the bytes. -/
def PortHeader.leading (h : PortHeader) (hfits : h.Fits) : Leading where
  codec := PortHeader.codec
  value := h
  data := h.data
  length_data := h.length_data
  encodes := h.encodes
  decodes := PortHeader.decodes hfits

theorem CheckTrailer.encodes (t : CheckTrailer) :
    ∃ w, CheckTrailer.codec.encode t (Writer.ofWindow (Bytes.zeros 4)) = .ok w ∧
      w.window = (NumberField.u32 .big).encode t.value ∧ w.written = 4 := by
  obtain ⟨w, hw, hf⟩ := (Writer.filled_ofWindow 4).number (.u32 .big) t.value (by decide)
  exact ⟨w, hw, hf.whole (NumberField.length_encode (.u32 .big) _)⟩

/-- A frame check sequence is read back from the end: the reader goes back by four bytes first, and ends where the
bytes end. -/
theorem CheckTrailer.decodes {t : CheckTrailer} (hfits : t.value < 1 <<< 32) (front : Bytes) :
    ∃ r, CheckTrailer.codec.decode (Reader.atEnd (front ++ (NumberField.u32 .big).encode t.value)) = .ok (t, r) ∧
      r.consumedFromEnd = ((NumberField.u32 .big).encode t.value).length := by
  have hwidth : ((NumberField.u32 .big).encode t.value).length = 4 := NumberField.length_encode _ _
  obtain ⟨r₁, hr₁, hb₁, hl₁⟩ := Reader.prev_atEnd front ((NumberField.u32 .big).encode t.value)
  rw [hwidth] at hr₁
  have hlast : r₁.Before ((NumberField.u32 .big).encode t.value ++ []) := hb₁.trans (List.append_nil _).symm
  obtain ⟨r₂, hr₂, -, -, hl₂, -⟩ := hlast.number hfits
  refine ⟨r₂, ?_, ?_⟩
  · simp only [CheckTrailer.codec, hr₁, hr₂, bind, Except.bind, pure, Except.pure]
  · rw [Reader.consumedFromEnd, hl₂, hl₁, List.length_append, Nat.add_sub_cancel_left]

/-- A frame check sequence as a layer that ends the bytes. -/
def CheckTrailer.trailing (t : CheckTrailer) (hfits : t.value < 1 <<< 32) : Trailing where
  codec := CheckTrailer.codec
  value := t
  data := (NumberField.u32 .big).encode t.value
  length_data := NumberField.length_encode _ _
  encodes := t.encodes
  decodes := CheckTrailer.decodes hfits

end SimKernel
