import SimKernel.Proofs.Wire.Cursors
import SimKernel.Wire.Steps

/-!
# Layouts of fields

Lists of fields that are written one after the other into a window, and read from it again.

* A writer at a place of a window (`Writer.Stands`) writes the fields that fit and stops at the first one that does not,
  which leaves it where it is (`Writer.Stands.writeAll`). What the window holds then is `Field.written`: a skipped field
  and all that comes after the last one keep their bytes (`Field.drop_written`).
* A reader before written fields finds their values (`Reader.Before.readAll`).
* Any bytes are the values of a layout, and these values written over other bytes are the same bytes again
  (`FieldKind.exists_found`).

The main statement puts the three together (`Field.round_trip`).
-/

namespace SimKernel

/-- What a field of a layout is, apart from its value. -/
inductive FieldKind where
  | number (field : NumberField)
  | bytes (n : Nat)
  /-- Bytes that are passed over. -/
  | skip (n : Nat)
deriving DecidableEq

/-- A field with what is written there. -/
inductive Field where
  | number (field : NumberField) (value : Fin (1 <<< (8 * field.width)))
  | bytes (data : Bytes)
  /-- One byte, many times. -/
  | repeated (byte : UInt8) (n : Nat)
  | skip (n : Nat)

namespace FieldKind

/-- The number of bytes of the field. -/
def size : FieldKind → Nat
  | number field => field.width
  | bytes n | skip n => n

/-- The number of bytes of the whole layout. -/
def total : List FieldKind → Nat
  | [] => 0
  | k :: layout => k.size + total layout

def readStep : FieldKind → ReadStep
  | number field => .number field
  | bytes n => .bytes n
  | skip n => .skip n

/-- What is there after `new` was written over `old`. -/
def laid : FieldKind → (new old : Bytes) → Bytes
  | skip _, _, old => old
  | _, new, _ => new

/-- What is there after all fields of `new` were written over `old`. -/
def allLaid : List FieldKind → (new old : Bytes) → Bytes
  | [], _, old => old
  | k :: layout, new, old =>
    k.laid (new.take k.size) (old.take k.size) ++ allLaid layout (new.drop k.size) (old.drop k.size)

@[simp] theorem total_nil : total [] = 0 := rfl

@[simp] theorem total_cons (k : FieldKind) (layout : List FieldKind) : total (k :: layout) = k.size + total layout := rfl

@[simp] theorem total_append (front back : List FieldKind) : total (front ++ back) = total front + total back := by
  induction front with
  | nil => rw [List.nil_append, total_nil, Nat.zero_add]
  | cons k front ih => rw [List.cons_append, total_cons, total_cons, ih, Nat.add_assoc]

theorem laid_self (k : FieldKind) (bytes : Bytes) : k.laid bytes bytes = bytes := by
  cases k <;> rfl

theorem allLaid_self (layout : List FieldKind) (bytes : Bytes) : allLaid layout bytes bytes = bytes := by
  induction layout generalizing bytes with
  | nil => rfl
  | cons k layout ih => rw [allLaid, laid_self, ih, List.take_append_drop]

end FieldKind

namespace Field

/-- The field without its value; many times one byte are read as bytes. -/
def kind : Field → FieldKind
  | number field _ => .number field
  | bytes data => .bytes data.length
  | repeated _ n => .bytes n
  | skip n => .skip n

def writeStep : Field → WriteStep
  | number field value => .number field value
  | bytes data => .bytes data
  | repeated byte n => .repeated byte n
  | skip n => .skip n

/-- What a reader finds in the field. -/
def result : Field → ReadResult
  | number field value => .number field value
  | bytes data => .bytes data
  | repeated byte n => .bytes (List.replicate n byte)
  | skip _ => .none

/-- The bytes of the field, in place of those that were there. -/
def data : Field → (old : Bytes) → Bytes
  | number field value, _ => field.encode value
  | bytes data, _ => data
  | repeated byte n, _ => List.replicate n byte
  | skip _, old => old

/-- What the window holds after the fields were written from its start. -/
def written : List Field → Bytes → Bytes
  | [], window => window
  | f :: fields, window => f.data (window.take f.kind.size) ++ written fields (window.drop f.kind.size)

/-- Writes one field after the other up to the first that fails: its error, if there is one, and the writer as it is then. -/
def writeAll {size : Nat} : List Field → Writer size → Option PacketError × Writer size
  | [], w => (none, w)
  | f :: fields, w =>
    match f.writeStep.run w with
    | .ok w => writeAll fields w
    | .error e => (some e, w)

/-- The number of bytes of all fields. -/
abbrev total (fields : List Field) : Nat := FieldKind.total (fields.map kind)

theorem length_data (f : Field) {old : Bytes} (h : old.length = f.kind.size) : (f.data old).length = f.kind.size := by
  cases f with
  | number field value => exact NumberField.length_encode field value
  | bytes data => rfl
  | repeated byte n => exact List.length_replicate
  | skip n => exact h

theorem length_data_take (f : Field) {window : Bytes} (h : f.kind.size ≤ window.length) :
    (f.data (window.take f.kind.size)).length = f.kind.size :=
  f.length_data (by rw [List.length_take, Nat.min_eq_left h])

/-- Behind the first fields the window holds what the others leave there. -/
theorem drop_written {front : List Field} (rest : List Field) (window : Bytes) (h : total front ≤ window.length) :
    (written (front ++ rest) window).drop (total front) = written rest (window.drop (total front)) := by
  induction front generalizing window with
  | nil => rfl
  | cons f front ih =>
    simp only [total, List.map_cons, FieldKind.total_cons] at h ih ⊢
    have hrest := ih (window.drop f.kind.size) (by rw [List.length_drop]; omega)
    rw [List.cons_append, written, ← List.drop_drop, List.drop_left' (f.length_data_take (by omega)), hrest, List.drop_drop]

end Field

/-! ## Writing -/

namespace Writer

variable {size : Nat} {w : Writer size} {done rest : Bytes}

/-- The writer has passed `done` and has `rest` before it. -/
structure Stands (w : Writer size) (done rest : Bytes) : Prop where
  window : w.window = done ++ rest
  position : w.position = done.length
  written : w.written = done.length

theorem stands_ofWindow (window : Bytes) : Stands (ofWindow window) [] window := ⟨rfl, rfl, rfl⟩

theorem Stands.remaining_eq (h : Stands w done rest) : w.remaining = rest.length := by
  have hlength := w.length_window
  rw [h.window, List.length_append] at hlength
  rw [remaining, h.position]
  omega

theorem Stands.bytes (h : Stands w done rest) {data : Bytes} (hle : data.length ≤ rest.length) :
    ∃ w', w.bytes data = .ok w' ∧ Stands w' (done ++ data) (rest.drop data.length) := by
  rw [← h.remaining_eq] at hle
  obtain ⟨w', hw, hwindow, hposition, hwritten⟩ := bytes_of_le hle
  refine ⟨w', hw, ?_, ?_, ?_⟩
  · rw [hwindow, h.window, h.position, Bytes.overlay, List.take_left, ← List.drop_drop, List.drop_left]
  · rw [hposition, h.position, List.length_append]
  · rw [hwritten, h.position, h.written, List.length_append]
    omega

theorem Stands.skip (h : Stands w done rest) {n : Nat} (hle : n ≤ rest.length) :
    ∃ w', w.skip n = .ok w' ∧ Stands w' (done ++ rest.take n) (rest.drop n) := by
  obtain ⟨w', hw, hwindow, hposition, hwritten⟩ := skip_of_le (w := w) (n := n) (by rwa [h.remaining_eq])
  have hlength : (done ++ rest.take n).length = done.length + n := by
    rw [List.length_append, List.length_take, Nat.min_eq_left hle]
  refine ⟨w', hw, ?_, ?_, ?_⟩
  · rw [hwindow, h.window, List.append_assoc, List.take_append_drop]
  · rw [hposition, h.position, hlength]
  · rw [hwritten, h.position, h.written, hlength]
    omega

/-- A field that fits is written. -/
theorem Stands.field (h : Stands w done rest) (f : Field) (hle : f.kind.size ≤ rest.length) :
    ∃ w', f.writeStep.run w = .ok w' ∧ Stands w' (done ++ f.data (rest.take f.kind.size)) (rest.drop f.kind.size) := by
  cases f with
  | number field value =>
    have hlength : (field.encode value).length = field.width := NumberField.length_encode field value
    rw [Field.kind, FieldKind.size, ← hlength] at hle ⊢
    exact h.bytes hle
  | bytes data => exact h.bytes hle
  | repeated byte n =>
    have hlength : (List.replicate n byte).length = n := List.length_replicate
    have hroom : n ≤ w.remaining := by rwa [h.remaining_eq]
    have hfits : (List.replicate n byte).length ≤ rest.length := by rwa [hlength]
    obtain ⟨w', hw, hstands⟩ := h.bytes hfits
    rw [hlength] at hstands
    exact ⟨w', (if_pos hroom).trans hw, hstands⟩
  | skip n => exact h.skip hle

/-- A field that does not fit is refused. -/
theorem Stands.field_of_lt (h : Stands w done rest) (f : Field) (hlt : rest.length < f.kind.size) :
    f.writeStep.run w = .error (.truncated f.kind.size rest.length) := by
  rw [← h.remaining_eq] at hlt ⊢
  cases f with
  | number field value =>
    have hlength : (field.encode value).length = field.width := NumberField.length_encode field value
    rw [Field.kind, FieldKind.size, ← hlength] at hlt ⊢
    exact dif_neg (Nat.not_le.2 hlt)
  | bytes data => exact dif_neg (Nat.not_le.2 hlt)
  | repeated byte n => exact if_neg (Nat.not_le.2 hlt)
  | skip n => exact dif_neg (Nat.not_le.2 hlt)

/-- The longest run of fields that fits is written, and the field after it, if there is one, is refused. -/
theorem Stands.writeAll (h : Stands w done rest) (fields : List Field) :
    ∃ front back, fields = front ++ back ∧ Field.total front ≤ rest.length ∧
      (∀ f ∈ back.head?, rest.length < Field.total front + f.kind.size) ∧
      ∃ w', Field.writeAll fields w =
          (back.head?.map fun f => .truncated f.kind.size (rest.length - Field.total front), w') ∧
        WriteStep.runAll (front.map Field.writeStep) w = .ok w' ∧
        w'.window = done ++ Field.written front rest ∧ w'.position = done.length + Field.total front ∧
        w'.written = done.length + Field.total front := by
  induction fields generalizing w done rest with
  | nil => exact ⟨[], [], rfl, Nat.zero_le _, nofun, w, rfl, rfl, h.window, h.position, h.written⟩
  | cons f fields ih =>
    rcases Nat.lt_or_ge rest.length f.kind.size with hlt | hle
    · -- the first field is refused, and nothing of it or of the others is written
      refine ⟨[], f :: fields, rfl, Nat.zero_le _, ?_, w, ?_, rfl, h.window, h.position, h.written⟩
      · rintro g ⟨⟩
        rwa [Field.total, List.map_nil, FieldKind.total_nil, Nat.zero_add]
      · rw [Field.writeAll, h.field_of_lt f hlt]
        rfl
    · obtain ⟨w₁, hw₁, hstands⟩ := h.field f hle
      obtain ⟨front, back, rfl, hfits, hlast, w', hw', hrun, hwindow, hposition, hwritten⟩ := ih hstands
      have hsize := f.length_data_take hle
      rw [List.length_drop] at hfits hlast hw'
      rw [List.length_append, hsize] at hposition hwritten
      refine ⟨f :: front, back, rfl, ?_, ?_, w', ?_, ?_, ?_, ?_, ?_⟩
      · simp only [Field.total, List.map_cons, FieldKind.total_cons] at hfits ⊢
        omega
      · intro g hg
        have := hlast g hg
        simp only [Field.total, List.map_cons, FieldKind.total_cons] at this ⊢
        omega
      · rw [Field.writeAll, hw₁]
        simp only [hw', Field.total, List.map_cons, FieldKind.total_cons, Nat.sub_sub]
      · rw [List.map_cons, WriteStep.runAll, List.foldlM_cons, hw₁]
        exact hrun
      · rw [hwindow, Field.written, List.append_assoc]
      · simp only [Field.total, List.map_cons, FieldKind.total_cons] at hposition ⊢
        omega
      · simp only [Field.total, List.map_cons, FieldKind.total_cons] at hwritten ⊢
        omega

/-- Fields that fit together are all written. -/
theorem Stands.writeAll_of_le (h : Stands w done rest) {fields : List Field} (hle : Field.total fields ≤ rest.length) :
    ∃ w', WriteStep.runAll (fields.map Field.writeStep) w = .ok w' ∧ w'.window = done ++ Field.written fields rest ∧
      w'.position = done.length + Field.total fields ∧ w'.written = done.length + Field.total fields := by
  obtain ⟨front, back, rfl, -, hlast, w', -, hw, hwindow, hposition, hwritten⟩ := h.writeAll fields
  cases back with
  | nil =>
    rw [List.append_nil]
    exact ⟨w', hw, hwindow, hposition, hwritten⟩
  | cons f back =>
    have hlt := hlast f rfl
    simp only [Field.total, List.map_append, List.map_cons, FieldKind.total_append, FieldKind.total_cons] at hlt hle
    omega

end Writer

/-! ## Reading -/

namespace Reader

variable {window rest : Bytes} {r : Reader window}

/-- A field is read from its bytes. -/
theorem Before.field {f : Field} {old : Bytes} (hold : old.length = f.kind.size) (h : Before r (f.data old ++ rest)) :
    ∃ r', f.kind.readStep.run r = .ok (f.result, r') ∧ Before r' rest ∧ r'.position = r.position + f.kind.size ∧
      r'.high = max r.high (r.position + f.kind.size) := by
  cases f with
  | number field value =>
    obtain ⟨r', hr, hrest, hposition, -, hhigh⟩ := h.number value.isLt
    exact ⟨r', congrArg (Except.map _) hr, hrest, hposition, hhigh⟩
  | bytes data =>
    obtain ⟨r', hr, hrest, hposition, -, hhigh⟩ := h.take
    exact ⟨r', congrArg (Except.map _) hr, hrest, hposition, hhigh⟩
  | repeated byte n =>
    obtain ⟨r', hr, hrest, hposition, -, hhigh⟩ := h.take
    rw [show (Field.data (.repeated byte n) old).length = n from List.length_replicate] at hr hposition hhigh
    exact ⟨r', congrArg (Except.map _) hr, hrest, hposition, hhigh⟩
  | skip n =>
    obtain ⟨r', hr, hrest, hposition, -, hhigh⟩ := h.take
    rw [show (Field.data (.skip n) old).length = n from hold] at hr hposition hhigh
    exact ⟨r', congrArg (fun x => Except.map _ (Except.map _ x)) hr, hrest, hposition, hhigh⟩

/-- Written fields are read as they were written. -/
theorem Before.readAll {fields : List Field} (h : Before r (Field.written fields rest)) (hhigh : r.high = r.position)
    (hle : Field.total fields ≤ rest.length) :
    ∃ r', ReadStep.runAll (fields.map fun f => f.kind.readStep) r = .ok (fields.map Field.result, r') ∧
      r'.position = r.position + Field.total fields ∧ r'.high = r.position + Field.total fields := by
  induction fields generalizing r rest with
  | nil => exact ⟨r, rfl, rfl, hhigh⟩
  | cons f fields ih =>
    simp only [Field.total, List.map_cons, FieldKind.total_cons] at hle ih ⊢
    obtain ⟨r₁, hr₁, hrest, hposition, hhigh₁⟩ :=
      Before.field (by rw [List.length_take, Nat.min_eq_left (by omega)]) h
    obtain ⟨r', hr', hposition', hhigh'⟩ := ih hrest (by omega) (by rw [List.length_drop]; omega)
    refine ⟨r', ?_, by omega, by omega⟩
    rw [ReadStep.runAll, hr₁]
    simp only [hr', bind, Except.bind, pure, Except.pure]

end Reader

/-- Bytes of the right number are a number that the field can have. -/
theorem NumberField.decode_lt (field : NumberField) {bytes : Bytes} (h : bytes.length = field.width) :
    field.decode bytes < 1 <<< (8 * field.width) := by
  have hdecode := field.decode_encode (field.decode bytes)
  rw [NumberField.encode_decode h] at hdecode
  rw [hdecode, Nat.one_shiftLeft]
  exact Nat.mod_lt _ (Nat.two_pow_pos _)

namespace FieldKind

/-- Bytes of the right number are the value of a field. -/
theorem exists_field (k : FieldKind) {new : Bytes} (h : new.length = k.size) :
    ∃ f : Field, f.kind = k ∧ ∀ old, f.data old = k.laid new old := by
  cases k with
  | number field =>
    exact ⟨.number field ⟨field.decode new, field.decode_lt h⟩, rfl, fun _ => NumberField.encode_decode h⟩
  | bytes n => exact ⟨.bytes new, congrArg FieldKind.bytes h, fun _ => rfl⟩
  | skip n => exact ⟨.skip n, rfl, fun _ => rfl⟩

/-- Bytes are the values of any layout that they have room for. -/
theorem exists_found {layout : List FieldKind} {new : Bytes} (h : total layout ≤ new.length) :
    ∃ found : List Field, found.map Field.kind = layout ∧ ∀ old, Field.written found old = allLaid layout new old := by
  induction layout generalizing new with
  | nil => exact ⟨[], rfl, fun _ => rfl⟩
  | cons k layout ih =>
    rw [total_cons] at h
    have htake : (new.take k.size).length = k.size := by rw [List.length_take, Nat.min_eq_left (by omega)]
    have hdrop : total layout ≤ (new.drop k.size).length := by rw [List.length_drop]; omega
    obtain ⟨f, rfl, hdata⟩ := k.exists_field htake
    obtain ⟨found, rfl, hwritten⟩ := ih hdrop
    exact ⟨f :: found, rfl, fun old => by rw [Field.written, allLaid, hdata, hwritten]⟩

end FieldKind

/-! ## Round trips -/

namespace Field

/-- **Fields come back as they were written.** Of a list of fields the longest run that fits is written into a window; the
first field that does not fit is refused with its size and the number of bytes left, and the writer stays behind the run
before it. If all fields fit, a reader of the window finds their values and consumes as many bytes as they have, and the
window has kept what lies behind them and the bytes that were passed over. The other way round, a layout that fits finds
values in any window, and to write these values over other bytes is to copy the fields from the window; over the window
itself they change nothing. -/
theorem round_trip (fields : List Field) (layout : List FieldKind) (window : Bytes) :
    (∃ front back, fields = front ++ back ∧ total front ≤ window.length ∧
      (∀ f ∈ back.head?, window.length < total front + f.kind.size) ∧
      ∃ w, writeAll fields (Writer.ofWindow window) =
          (back.head?.map fun f => .truncated f.kind.size (window.length - total front), w) ∧
        WriteStep.runAll (front.map writeStep) (Writer.ofWindow window) = .ok w ∧
        w.window = written front window ∧ w.position = total front ∧ w.written = total front) ∧
    (total fields ≤ window.length → ∃ w r,
      WriteStep.runAll (fields.map writeStep) (Writer.ofWindow window) = .ok w ∧
      ReadStep.runAll (fields.map fun f => f.kind.readStep) (Reader.atStart w.window) = .ok (fields.map result, r) ∧
      r.position = total fields ∧ r.consumedFromStart = total fields ∧
      w.window.drop (total fields) = window.drop (total fields) ∧
      ∀ front n rest, fields = front ++ .skip n :: rest →
        (w.window.drop (total front)).take n = (window.drop (total front)).take n) ∧
    (FieldKind.total layout ≤ window.length → ∃ (found : List Field) (r : Reader window), found.map kind = layout ∧
      ReadStep.runAll (layout.map FieldKind.readStep) (Reader.atStart window) = .ok (found.map result, r) ∧
      r.position = FieldKind.total layout ∧ r.consumedFromStart = FieldKind.total layout ∧
      (∀ target : Bytes, FieldKind.total layout ≤ target.length → ∃ w,
        WriteStep.runAll (found.map writeStep) (Writer.ofWindow target) = .ok w ∧
        w.window = FieldKind.allLaid layout window target) ∧
      ∃ w, WriteStep.runAll (found.map writeStep) (Writer.ofWindow window) = .ok w ∧ w.window = window) := by
  refine ⟨?_, ?_, ?_⟩
  · simpa only [List.nil_append, List.length_nil, Nat.zero_add] using (Writer.stands_ofWindow window).writeAll fields
  · intro hle
    obtain ⟨w, hw, hwindow, -, -⟩ := (Writer.stands_ofWindow window).writeAll_of_le hle
    rw [List.nil_append] at hwindow
    obtain ⟨r, hr, hposition, hhigh⟩ := (Reader.before_atStart hwindow).readAll rfl hle
    refine ⟨w, r, hw, hr, hposition.trans (Nat.zero_add _), hhigh.trans (Nat.zero_add _), ?_, ?_⟩
    · have hdrop := drop_written [] window hle
      rwa [List.append_nil, ← hwindow] at hdrop
    · rintro front n rest rfl
      simp only [total, List.map_append, List.map_cons, FieldKind.total_append, FieldKind.total_cons] at hle
      have hn : n ≤ (window.drop (total front)).length := by
        rw [List.length_drop]
        simp only [kind, FieldKind.size] at hle
        simp only [total]
        omega
      rw [hwindow, drop_written _ _ (by simp only [total]; omega), written]
      exact List.take_left' (by rw [data, kind, FieldKind.size, List.length_take, Nat.min_eq_left hn])
  · intro hle
    obtain ⟨found, rfl, hfound⟩ := FieldKind.exists_found hle
    have hself : written found window = window := (hfound window).trans (FieldKind.allLaid_self _ window)
    obtain ⟨r, hr, hposition, hhigh⟩ := (Reader.before_atStart hself.symm).readAll rfl hle
    have hsteps : (found.map kind).map FieldKind.readStep = found.map fun f => f.kind.readStep := List.map_map
    rw [← hsteps] at hr
    have hwrite (target : Bytes) (ht : total found ≤ target.length) :
        ∃ w, WriteStep.runAll (found.map writeStep) (Writer.ofWindow target) = .ok w ∧
          w.window = FieldKind.allLaid (found.map kind) window target := by
      obtain ⟨w, hw, hwindow, -, -⟩ := (Writer.stands_ofWindow target).writeAll_of_le ht
      exact ⟨w, hw, hwindow.trans (hfound target)⟩
    obtain ⟨w, hw, hwindow⟩ := hwrite window hle
    exact ⟨found, r, rfl, hr, hposition.trans (Nat.zero_add _), hhigh.trans (Nat.zero_add _), hwrite, w, hw,
      hwindow.trans (FieldKind.allLaid_self _ window)⟩

/-- A window of ten bytes. -/
def tenBytes : Bytes := [0, 0, 0, 0, 0, 0xaa, 0, 0, 0xbb, 0xcc]

/-- Fields for its first eight bytes. -/
def eightBytes : List Field :=
  [.number .u8 7, .number (.u16 .little) 0x1234, .bytes [1, 2], .skip 1, .repeated 9 2]

theorem round_trip_eightBytes :
    (total eightBytes ≤ tenBytes.length ∧ FieldKind.total (eightBytes.map kind) ≤ tenBytes.length) ∧
    (∃ w r, WriteStep.runAll (eightBytes.map writeStep) (Writer.ofWindow tenBytes) = .ok w ∧
      ReadStep.runAll (eightBytes.map fun f => f.kind.readStep) (Reader.atStart w.window) = .ok (eightBytes.map result, r) ∧
      r.consumedFromStart = 8 ∧ w.window.drop 8 = [0xbb, 0xcc] ∧ (w.window.drop 5).take 1 = [0xaa]) ∧
    ∃ (found : List Field) (r : Reader tenBytes), found.map kind = eightBytes.map kind ∧
      ReadStep.runAll ((eightBytes.map kind).map FieldKind.readStep) (Reader.atStart tenBytes) = .ok (found.map result, r) ∧
      ∃ w, WriteStep.runAll (found.map writeStep) (Writer.ofWindow tenBytes) = .ok w ∧ w.window = tenBytes := by
  have hle : total eightBytes ≤ tenBytes.length := by decide
  obtain ⟨-, hthere, hback⟩ := round_trip eightBytes (eightBytes.map kind) tenBytes
  obtain ⟨w, r, hw, hr, -, hconsumed, hbehind, hskipped⟩ := hthere hle
  obtain ⟨found, r', hkinds, hr', -, -, -, hw'⟩ := hback hle
  have hpassed := hskipped [.number .u8 7, .number (.u16 .little) 0x1234, .bytes [1, 2]] 1 [.repeated 9 2] rfl
  exact ⟨⟨hle, hle⟩, ⟨w, r, hw, hr, hconsumed, hbehind, hpassed⟩, found, r', hkinds, hr', hw'⟩

end Field

end SimKernel
