import SimKernel.Proofs.Buffer.Values

/-!
# Buffers stay within bounds

The operations on buffers once more, with a check at every subtraction of positions and lengths, at every look at a
range of bytes and at every copy into one (`Guarded`). A check that fails is a breach and ends the operation. On a pool
in which every buffer looks into the used range of its storage no check fails, and each operation does what it does
without the checks (`Guarded.addAtStart_eq` and the others like it).

So the checks of a whole history never fail, and after it every live buffer still lies in the used range
(`Handles.exec_guarded`).
-/

namespace SimKernel

/-- The checks that can fail. -/
inductive Breach where
  /-- A difference would be negative. -/
  | negative
  /-- A range of bytes is not there, or it has another length than the bytes copied into it. -/
  | outside
deriving DecidableEq, Repr

namespace Guarded

open Pool

/-! ## Checks -/

/-- The difference of two positions or lengths. -/
def minus (a b : Nat) : Except Breach Nat :=
  if b ≤ a then .ok (a - b) else .error .negative

/-- The bytes from `start` up to `stop`. -/
def slice (bytes : Bytes) (start stop : Nat) : Except Breach Bytes :=
  if start ≤ stop ∧ stop ≤ bytes.length then .ok ((bytes.drop start).take (stop - start)) else .error .outside

/-- The string with `data` in place of the bytes from `start` up to `stop`. -/
def copy (bytes : Bytes) (start stop : Nat) (data : Bytes) : Except Breach Bytes :=
  if start ≤ stop ∧ stop ≤ bytes.length ∧ data.length = stop - start then .ok (bytes.overlay start data)
  else .error .outside

theorem minus_of_le {a b : Nat} (h : b ≤ a) : minus a b = .ok (a - b) := if_pos h

theorem slice_of_le {bytes : Bytes} {start stop : Nat} (h : start ≤ stop) (hle : stop ≤ bytes.length) :
    slice bytes start stop = .ok ((bytes.drop start).take (stop - start)) := if_pos ⟨h, hle⟩

theorem copy_of_le {bytes data : Bytes} {start stop : Nat} (h : start ≤ stop) (hle : stop ≤ bytes.length)
    (hlen : data.length = stop - start) : copy bytes start stop data = .ok (bytes.overlay start data) :=
  if_pos ⟨h, hle, hlen⟩

/-! ## Storages -/

/-- Zero bytes into which `data` is copied behind the first `before`. -/
def layout (before : Nat) (data : Bytes) (after : Nat) : Except Breach Storage := do
  let bytes ← copy (Bytes.zeros (before + data.length + after)) before (before + data.length) data
  return ⟨bytes, before, before + data.length⟩

/-- The bytes have the length of the range between the two margins, so they can be copied there. -/
theorem layout_eq (before : Nat) (data : Bytes) (after : Nat) :
    layout before data after = .ok (Storage.layout before data after) := by
  have hover := Bytes.overlay_append (Bytes.zeros before) (Bytes.zeros after) (Bytes.length_zeros data.length).symm
  rw [← Bytes.zeros_add, ← Bytes.zeros_add, Bytes.length_zeros] at hover
  rw [layout, copy_of_le (Nat.le_add_right _ _) (by rw [Bytes.length_zeros]; exact Nat.le_add_right _ _)
    (Nat.add_sub_cancel_left _ _).symm, hover]
  rfl

theorem usedStart_layout (before : Nat) (data : Bytes) (after : Nat) :
    (Storage.layout before data after).usedStart = before := rfl

theorem usedStop_layout (before : Nat) (data : Bytes) (after : Nat) :
    (Storage.layout before data after).usedStop = before + data.length := rfl

/-- Zeros in the `n` bytes before position `start`, which become the first ones that are used. -/
def growStart (s : Storage) (start n : Nat) : Except Breach (Nat × Storage) := do
  let start ← minus start n
  let bytes ← copy s.bytes start (start + n) (Bytes.zeros n)
  return (start, { s with bytes, usedStart := start })

/-- Zeros in the `n` bytes from position `stop` on, which become the last ones that are used. -/
def growStop (s : Storage) (stop n : Nat) : Except Breach (Nat × Storage) := do
  let bytes ← copy s.bytes stop (stop + n) (Bytes.zeros n)
  return (stop + n, { s with bytes, usedStop := stop + n })

/-- Zeros may be put into the `n` bytes before position `start` if there are as many. -/
theorem growStart_of_le {s : Storage} {start n : Nat} (h : n ≤ start) (hle : start ≤ s.bytes.length) :
    growStart s start n = .ok (start - n, { s.write (start - n) (Bytes.zeros n) with usedStart := start - n }) := by
  have hcopy : copy s.bytes (start - n) (start - n + n) (Bytes.zeros n) =
      .ok (s.bytes.overlay (start - n) (Bytes.zeros n)) :=
    copy_of_le (Nat.le_add_right _ _) (by omega) (by rw [Bytes.length_zeros, Nat.add_sub_cancel_left])
  simp only [growStart, minus_of_le h, bind, Except.bind, hcopy]
  rfl

/-- Zeros may be put into the `n` bytes from position `stop` on if they are there. -/
theorem growStop_of_le {s : Storage} {stop n : Nat} (h : stop + n ≤ s.bytes.length) :
    growStop s stop n = .ok (stop + n, { s.write stop (Bytes.zeros n) with usedStop := stop + n }) := by
  have hcopy : copy s.bytes stop (stop + n) (Bytes.zeros n) = .ok (s.bytes.overlay stop (Bytes.zeros n)) :=
    copy_of_le (Nat.le_add_right _ _) h (by rw [Bytes.length_zeros, Nat.add_sub_cancel_left])
  simp only [growStop, hcopy, bind, Except.bind]
  rfl

/-- The storage to which a buffer moves that needs so much more room at either end. -/
def reallocated (v : View) (s : Storage) (moreStart moreStop : Nat) : Except Breach (Except Fault Storage) := do
  let size ← minus v.stop v.start
  let before := if 0 < moreStart then moreStart + max startRoom (size / 2) else startRoom
  let after := if 0 < moreStop then moreStop + max stopRoom (size / 2) else stopRoom
  match Bytes.checkLength (before + size + after) with
  | .error f => return .error f
  | .ok () =>
    let data ← slice s.bytes v.start v.stop
    return .ok (← layout before data after)

/-- A buffer in the used range can be moved: only its new storage may be longer than a byte string can be. -/
theorem reallocated_eq {v : View} {s : Storage} (hc : s.Covers v) (before after moreStart moreStop : Nat)
    (hbefore : before = if 0 < moreStart then moreStart + max startRoom ((v.stop - v.start) / 2) else startRoom)
    (hafter : after = if 0 < moreStop then moreStop + max stopRoom ((v.stop - v.start) / 2) else stopRoom) :
    reallocated v s moreStart moreStop = .ok ((Bytes.checkLength (before + (v.stop - v.start) + after)).map fun _ =>
      Storage.layout before (s.slice v.start v.stop) after) := by
  subst hbefore hafter
  simp only [reallocated, minus_of_le hc.le_stop, slice_of_le hc.le_stop hc.stop_le_length, layout_eq, bind,
    Except.bind]
  split
  case h_1 hl => rw [hl]; rfl
  case h_2 hl => rw [hl]; rfl

/-- A part of what a buffer looks at is there. -/
theorem slice_part {v : View} {s : Storage} (hc : s.Covers v) {first last : Nat} (h : first ≤ last)
    (hlast : last ≤ v.stop - v.start) : slice s.bytes (v.start + first) (v.start + last) =
      .ok (((s.slice v.start v.stop).drop first).take (last - first)) := by
  have hss := hc.le_stop
  have hstop := hc.stop_le_length
  rw [slice_of_le (by omega) (by omega), ← s.slice_slice v.start v.stop first last (by omega)]
  rfl

/-! ## Looking at a buffer

Each operation from here on is the one of the same name on a pool, with its checks. -/

/-- The number of bytes that the buffer looks at. -/
def size (p : Pool) (b : Buffer) : Except Breach Nat :=
  match p.view? b with
  | some v => minus v.stop v.start
  | none => .ok 0

/-- The number of bytes behind the last one that the buffer looks at. -/
def stopMargin (p : Pool) (b : Buffer) : Except Breach Nat :=
  match p.find? b with
  | some (v, s) => minus s.bytes.length v.stop
  | none => .ok 0

/-- The bytes that the buffer looks at. -/
def bytes (p : Pool) (b : Buffer) : Except Breach Bytes :=
  match p.find? b with
  | some (v, s) => slice s.bytes v.start v.stop
  | none => .ok []

def sameBytes (p : Pool) (a b : Buffer) : Except Breach Bool := do
  return (← bytes p a) == (← bytes p b)

/-- The target with as many bytes of the buffer at its start as there is room for, and their number. -/
def copyTo (p : Pool) (b : Buffer) (target : Bytes) : Except Breach (Nat × Bytes) := do
  let data ← bytes p b
  let n := min data.length target.length
  return (n, ← copy target 0 n (← slice data 0 n))

def describe (p : Pool) (b : Buffer) : Except Breach String := do
  return "Buffer \x7b size: " ++ toString (← size p b) ++ ", start_margin: " ++ toString (p.startMargin b) ++
    ", end_margin: " ++ toString (← stopMargin p b) ++ ", shared: " ++ toString (p.isShared b) ++ " \x7d"

/-- The size of the buffer is needed for the answer, so this one has a check too. -/
def checkRange (p : Pool) (b : Buffer) (offset length : Nat) : Except Breach (Except BufferError Unit) := do
  let size ← size p b
  return if offset + length ≤ size then .ok () else .error (.outOfBounds offset length size)

def read (p : Pool) (b : Buffer) (offset length : Nat) : Except Breach (Except BufferError Bytes) := do
  match ← checkRange p b offset length with
  | .error e => return .error e
  | .ok () =>
    match p.find? b with
    | some (v, s) => return .ok (← slice s.bytes (v.start + offset) (v.start + offset + length))
    | none => return .ok []

section Looking

variable {p : Pool} {b c : Buffer} {old data : Bytes}

/-- A buffer never ends before it starts. -/
theorem size_eq (h : p.Valid) (hb : p.contents b = some old) : size p b = .ok (p.size b) := by
  obtain ⟨v, s, -, hv, -, hc, -⟩ := h.exists_view hb
  simp only [size, Pool.size, hv]
  exact minus_of_le hc.le_stop

/-- The checks are real: a buffer that ends before it starts has no size. -/
example : size ⟨∅, (∅ : Std.TreeMap Nat View).insert 0 ⟨1, 3, 2⟩, 2⟩ ⟨0⟩ = .error .negative := rfl

/-- A buffer never ends behind its storage. -/
theorem stopMargin_eq (h : p.Valid) (hb : p.contents b = some old) : stopMargin p b = .ok (p.stopMargin b) := by
  obtain ⟨v, s, hf, -, -, hc, -⟩ := h.exists_view hb
  simp only [stopMargin, Pool.stopMargin, hf]
  exact minus_of_le hc.stop_le_length

theorem bytes_eq (h : p.Valid) (hb : p.contents b = some old) : bytes p b = .ok (p.bytes b) := by
  obtain ⟨v, s, hf, -, -, hc, -⟩ := h.exists_view hb
  simp only [bytes, Pool.bytes, hf]
  exact slice_of_le hc.le_stop hc.stop_le_length

theorem sameBytes_eq (h : p.Valid) (hb : p.contents b = some old) (hc : p.contents c = some data) :
    sameBytes p b c = .ok (p.sameBytes b c) := by
  rw [sameBytes, bytes_eq h hb, bytes_eq h hc]
  rfl

/-- Both copies have the smaller one of the two lengths. -/
theorem copyTo_eq (h : p.Valid) (hb : p.contents b = some old) (target : Bytes) :
    copyTo p b target = .ok (p.copyTo b target) := by
  have hlength : ((p.bytes b).take target.length).length = min (p.bytes b).length target.length := by
    rw [List.length_take, Nat.min_comm]
  have hslice : slice (p.bytes b) 0 (min (p.bytes b).length target.length) = .ok ((p.bytes b).take target.length) := by
    rw [slice_of_le (Nat.zero_le _) (Nat.min_le_left _ _), List.drop_zero, Nat.sub_zero, Nat.min_comm, ← List.take_eq_take_min]
  have hcopy : copy target 0 (min (p.bytes b).length target.length) ((p.bytes b).take target.length) =
      .ok (target.overlay 0 ((p.bytes b).take target.length)) :=
    copy_of_le (Nat.zero_le _) (Nat.min_le_right _ _) hlength
  simp only [copyTo, bytes_eq h hb, hslice, hcopy, bind, Except.bind, pure, Except.pure, Pool.copyTo, hlength]

theorem describe_eq (h : p.Valid) (hb : p.contents b = some old) : describe p b = .ok (p.describe b) := by
  rw [describe, size_eq h hb, stopMargin_eq h hb]
  rfl

theorem checkRange_eq (h : p.Valid) (hb : p.contents b = some old) (offset length : Nat) :
    checkRange p b offset length = .ok (p.checkRange b offset length) := by
  rw [checkRange, size_eq h hb]
  rfl

/-- The range of the bytes is looked at only after it was found to lie in the buffer. -/
theorem read_eq (h : p.Valid) (hb : p.contents b = some old) (offset length : Nat) :
    read p b offset length = .ok (p.read b offset length) := by
  simp only [read, checkRange_eq h hb, Pool.read, h.checkRange hb, bind, Except.bind]
  by_cases hle : offset + length ≤ old.length
  · obtain ⟨v, s, hf, -, -, hc, rfl, hlen⟩ := h.exists_view hb
    have hpart := slice_part hc (Nat.le_add_right offset length) (hlen ▸ hle)
    rw [← Nat.add_assoc, Nat.add_sub_cancel_left] at hpart
    simp only [if_pos hle, hf, hpart, Pool.bytes_eq hb]
    rfl
  · simp only [if_neg hle]
    rfl

end Looking

/-! ## Making buffers -/

def ofBytes (p : Pool) (data : Bytes) : Except Breach (Buffer × Pool) := do
  return p.ofStorage (← layout startRoom data stopRoom)

def ofSize (p : Pool) (n : Nat) : Except Breach (Except Fault (Buffer × Pool)) := do
  match Bytes.checkLength n with
  | .error f => return .error f
  | .ok () => return .ok (← ofBytes p (Bytes.zeros n))

/-- A new buffer that looks at a part of what this one looks at. -/
def fragment (p : Pool) (b : Buffer) (offset length : Nat) : Except Breach (Except BufferError (Buffer × Pool)) := do
  match ← checkRange p b offset length with
  | .error e => return .error e
  | .ok () =>
    match p.view? b with
    | some v => return .ok (p.ofView { v with start := v.start + offset, stop := v.start + offset + length })
    | none => return .ok (← ofBytes p [])

/-- A new storage has room for its bytes. -/
theorem ofBytes_eq (p : Pool) (data : Bytes) : ofBytes p data = .ok (p.ofBytes data) := by
  rw [ofBytes, layout_eq]
  rfl

theorem ofSize_eq (p : Pool) (n : Nat) : ofSize p n = .ok (p.ofSize n) := by
  simp only [ofSize, Pool.ofSize, ofBytes_eq]
  cases Bytes.checkLength n <;> rfl

/-- A fragment looks at no bytes yet, so only the size of the buffer is checked. -/
theorem fragment_eq {p : Pool} {b : Buffer} {old : Bytes} (h : p.Valid) (hb : p.contents b = some old)
    (offset length : Nat) : fragment p b offset length = .ok (p.fragment b offset length) := by
  obtain ⟨v, -, -, hv, -⟩ := h.exists_view hb
  simp only [fragment, Pool.fragment, checkRange_eq h hb, hv, bind, Except.bind]
  cases p.checkRange b offset length <;> rfl

/-! ## Growing and shrinking -/

def addAtStart (p : Pool) (b : Buffer) (n : Nat) : Except Breach (Except Fault Pool) := do
  match p.find? b with
  | none => return .ok p
  | some (v, s) =>
    if n = 0 then return .ok p
    else
      let s := p.reclaimed b v s
      if n ≤ v.start ∧ s.usedStart = v.start then
        let (start, s) ← growStart s v.start n
        return .ok { p with storages := p.storages.insert v.storage s, views := p.views.insert b.id { v with start } }
      else
        match ← reallocated v s n 0 with
        | .error f => return .error f
        | .ok s =>
          let (_, s) ← growStart s s.usedStart n
          return .ok (p.relocate b s)

def addAtEnd (p : Pool) (b : Buffer) (n : Nat) : Except Breach (Except Fault Pool) := do
  match p.find? b with
  | none => return .ok p
  | some (v, s) =>
    if n = 0 then return .ok p
    else
      let s := p.reclaimed b v s
      let room ← minus s.bytes.length v.stop
      if n ≤ room ∧ s.usedStop = v.stop then
        let (stop, s) ← growStop s v.stop n
        return .ok { p with storages := p.storages.insert v.storage s, views := p.views.insert b.id { v with stop } }
      else
        match ← reallocated v s 0 n with
        | .error f => return .error f
        | .ok s =>
          let (_, s) ← growStop s s.usedStop n
          return .ok (p.relocate b s)

section Growing

variable {p : Pool} {b : Buffer} {old : Bytes}

/-- A storage that was laid out with `n` more bytes before those of a buffer has room for them. -/
theorem growStart_layout (before n after : Nat) (data : Bytes) :
    growStart (Storage.layout (n + before) data after) (n + before) n =
      .ok (before, Storage.layout before (Bytes.zeros n ++ data) after) := by
  have hbytes : Bytes.zeros (n + before) ++ data ++ Bytes.zeros after =
      Bytes.zeros before ++ Bytes.zeros n ++ (data ++ Bytes.zeros after) := by
    rw [Nat.add_comm n, Bytes.zeros_add, List.append_assoc (Bytes.zeros before ++ Bytes.zeros n)]
  have hover := Bytes.overlay_append (Bytes.zeros before) (data ++ Bytes.zeros after)
    (rfl : (Bytes.zeros n).length = (Bytes.zeros n).length)
  rw [Bytes.length_zeros, ← hbytes] at hover
  rw [growStart_of_le (Nat.le_add_right n before) (by simp [Storage.layout, Bytes.zeros]), Nat.add_sub_cancel_left]
  simp only [Storage.layout, Storage.write, hover]
  rw [hbytes]
  simp only [List.append_assoc, List.length_append, Bytes.length_zeros, Nat.add_comm n before, Nat.add_assoc]

/-- A storage that was laid out with `n` more bytes after those of a buffer has room for them. -/
theorem growStop_layout (before n after : Nat) (data : Bytes) :
    growStop (Storage.layout before data (n + after)) (before + data.length) n =
      .ok (before + data.length + n, Storage.layout before (data ++ Bytes.zeros n) after) := by
  have hbytes : Bytes.zeros before ++ data ++ Bytes.zeros (n + after) =
      Bytes.zeros before ++ data ++ Bytes.zeros n ++ Bytes.zeros after := by
    rw [Bytes.zeros_add, List.append_assoc (Bytes.zeros before ++ data)]
  have hover := Bytes.overlay_append (Bytes.zeros before ++ data) (Bytes.zeros after)
    (rfl : (Bytes.zeros n).length = (Bytes.zeros n).length)
  rw [List.length_append, Bytes.length_zeros, ← hbytes] at hover
  rw [growStop_of_le (by simp [Storage.layout, Bytes.zeros]; omega)]
  simp only [Storage.layout, Storage.write, hover]
  rw [hbytes]
  simp only [List.append_assoc, List.length_append, Bytes.length_zeros, Nat.add_assoc]

/-- The bytes go into the margin if it is large enough and nothing in it is used, and into a new storage otherwise. No
check fails either way. -/
theorem addAtStart_eq (h : p.Valid) (hb : p.contents b = some old) (n : Nat) :
    addAtStart p b n = .ok (p.addAtStart b n) := by
  obtain ⟨v, s, hf, hv, -, hc, -⟩ := h.exists_view hb
  have hcr := (reclaimed_covers hv hc).1
  simp only [addAtStart, Pool.addAtStart, hf]
  generalize p.reclaimed b v s = r at hcr
  have hstop := hcr.stop_le_length
  by_cases hn : n = 0
  · rw [if_pos hn, if_pos hn]
    rfl
  rw [if_neg hn, if_neg hn]
  by_cases hin : n ≤ v.start ∧ r.usedStart = v.start
  · rw [if_pos hin, if_pos hin, growStart_of_le hin.1 (Nat.le_trans hcr.le_stop hstop)]
    rfl
  · -- the storage is laid out for the old bytes, and then the room before them is taken
    rw [if_neg hin, if_neg hin, reallocated_eq hcr (n + max startRoom ((v.stop - v.start) / 2)) stopRoom n 0
      (if_pos (Nat.pos_of_ne_zero hn)).symm (if_neg (Nat.lt_irrefl 0)).symm, Storage.length_slice hstop,
      Nat.add_comm (max startRoom _) n]
    cases Bytes.checkLength (n + max startRoom ((v.stop - v.start) / 2) + (v.stop - v.start) + stopRoom) with
    | error f => rfl
    | ok =>
      simp only [bind, Except.bind, Except.map, usedStart_layout, growStart_layout]
      rfl

theorem addAtEnd_eq (h : p.Valid) (hb : p.contents b = some old) (n : Nat) :
    addAtEnd p b n = .ok (p.addAtEnd b n) := by
  obtain ⟨v, s, hf, hv, -, hc, -⟩ := h.exists_view hb
  have hcr := (reclaimed_covers hv hc).1
  simp only [addAtEnd, Pool.addAtEnd, hf]
  generalize p.reclaimed b v s = r at hcr
  have hstop := hcr.stop_le_length
  by_cases hn : n = 0
  · rw [if_pos hn, if_pos hn]
    rfl
  rw [if_neg hn, if_neg hn, minus_of_le hstop]
  simp only [bind, Except.bind]
  by_cases hin : n ≤ r.bytes.length - v.stop ∧ r.usedStop = v.stop
  · rw [if_pos hin, if_pos hin, growStop_of_le (by omega)]
    rfl
  · rw [if_neg hin, if_neg hin, reallocated_eq hcr startRoom (n + max stopRoom ((v.stop - v.start) / 2)) 0 n
      (if_neg (Nat.lt_irrefl 0)).symm (if_pos (Nat.pos_of_ne_zero hn)).symm, Storage.length_slice hstop,
      ← Nat.add_assoc _ n]
    cases Bytes.checkLength (startRoom + (v.stop - v.start) + n + max stopRoom ((v.stop - v.start) / 2)) with
    | error f => rfl
    | ok =>
      simp only [Except.map, usedStop_layout, growStop_layout]
      rfl

end Growing

def removeAtStart (p : Pool) (b : Buffer) (n : Nat) : Except Breach (Except BufferError Pool) := do
  let size ← size p b
  if n ≤ size then return .ok { p with views := p.views.modify b.id fun v => { v with start := v.start + n } }
  else return .error (.underflow n size)

/-- The end is checked before the view is changed. -/
def removeAtEnd (p : Pool) (b : Buffer) (n : Nat) : Except Breach (Except BufferError Pool) := do
  let size ← size p b
  if n ≤ size then
    match p.view? b with
    | some v =>
      let _ ← minus v.stop n
      return .ok { p with views := p.views.modify b.id fun v => { v with stop := v.stop - n } }
    | none => return .ok p
  else return .error (.underflow n size)

section Shrinking

variable {p : Pool} {b : Buffer} {old : Bytes}

theorem removeAtStart_eq (h : p.Valid) (hb : p.contents b = some old) (n : Nat) :
    removeAtStart p b n = .ok (p.removeAtStart b n) := by
  rw [removeAtStart, size_eq h hb, Pool.removeAtStart]
  simp only [bind, Except.bind]
  split <;> rfl

/-- No more bytes are cut off than the buffer has, so its end stays a position. -/
theorem removeAtEnd_eq (h : p.Valid) (hb : p.contents b = some old) (n : Nat) :
    removeAtEnd p b n = .ok (p.removeAtEnd b n) := by
  obtain ⟨v, s, -, hv, -, hc, -, hlen⟩ := h.exists_view hb
  have hss := hc.le_stop
  rw [removeAtEnd, size_eq h hb, Pool.removeAtEnd]
  simp only [bind, Except.bind, hv]
  by_cases hle : n ≤ p.size b
  · rw [h.size_eq hb] at hle ⊢
    rw [if_pos hle, if_pos hle, minus_of_le (by omega)]
    rfl
  · rw [if_neg hle, if_neg hle]
    rfl

end Shrinking

/-! ## Writing -/

def detach (p : Pool) (b : Buffer) : Except Breach Pool :=
  match p.find? b with
  | some (v, s) =>
    if p.isShared b then do
      let data ← slice s.bytes v.start v.stop
      let after ← minus s.bytes.length v.stop
      return p.relocate b (← layout v.start data after)
    else return p
  | none => return p

/-- Gives the bytes of a storage from `start` up to `stop` to `change`, and puts what they become in their place. -/
def lend {σ : Type} (p : Pool) (storage : Nat) (s : Storage) (start stop : Nat) (change : Bytes → σ × Bytes) :
    Except Breach (σ × Pool) := do
  let window ← slice s.bytes start stop
  let (answer, data) := change window
  let bytes ← copy s.bytes start stop data
  return (answer, { p with storages := p.storages.insert storage { s with bytes } })

def write (p : Pool) (b : Buffer) (offset : Nat) (data : Bytes) : Except Breach (Except BufferError Pool) := do
  match ← checkRange p b offset data.length with
  | .error e => return .error e
  | .ok () =>
    let p ← detach p b
    match p.find? b with
    | some (v, s) =>
      let ((), p) ← lend p v.storage s (v.start + offset) (v.start + offset + data.length) fun _ => ((), data)
      return .ok p
    | none => return .ok p

def update (p : Pool) (b : Buffer) (change : Bytes → Bytes) : Except Breach Pool := do
  let p ← detach p b
  match p.find? b with
  | some (v, s) =>
    let ((), p) ← lend p v.storage s v.start v.stop fun window => ((), change window)
    return p
  | none => return p

def prependWith {ρ : Type} (p : Pool) (b : Buffer) (n : Nat) (fill : Bytes → ρ × Bytes) :
    Except Breach (Except Fault (ρ × Pool)) := do
  match ← addAtStart p b n with
  | .error f => return .error f
  | .ok p =>
    match p.find? b with
    | some (v, s) => return .ok (← lend p v.storage s v.start (v.start + n) fill)
    | none => return .ok ((fill []).1, p)

def appendWith {ρ : Type} (p : Pool) (b : Buffer) (n : Nat) (fill : Bytes → ρ × Bytes) :
    Except Breach (Except Fault (ρ × Pool)) := do
  match ← addAtEnd p b n with
  | .error f => return .error f
  | .ok p =>
    match p.find? b with
    | some (v, s) => return .ok (← lend p v.storage s (← minus v.stop n) v.stop fill)
    | none => return .ok ((fill []).1, p)

def append (p : Pool) (b other : Buffer) : Except Breach (Except Fault Pool) := do
  let data ← bytes p other
  if data.isEmpty then return .ok p
  else return (← appendWith p b data.length fun _ => ((), data)).map Prod.snd

section Writing

variable {p : Pool} {b c : Buffer} {v : View} {s : Storage} {old : Bytes} {ρ : Type}

/-- The bytes are laid out once more between the margins that they had. -/
theorem detach_eq (h : p.Valid) (hb : p.contents b = some old) : detach p b = .ok (p.detach b) := by
  obtain ⟨v, s, hf, -, -, hc, -⟩ := h.exists_view hb
  have hstop := hc.stop_le_length
  simp only [detach, Pool.detach, hf]
  rw [slice_of_le hc.le_stop hstop, minus_of_le hstop]
  simp only [bind, Except.bind, layout_eq]
  split <;> rfl

/-- Bytes that a buffer looks at are lent out as a part of what it shows, and come back by overwriting that part. -/
theorem lend_eq (h : p.Valid) (hf : p.find? b = some (v, s)) (hb : p.contents b = some old) {first last : Nat}
    (hfirst : first ≤ last) (hlast : last ≤ old.length) (change : Bytes → ρ × Bytes)
    (hlen : (change ((old.drop first).take (last - first))).2.length = last - first) :
    lend p v.storage s (v.start + first) (v.start + last) change =
      .ok ((change ((old.drop first).take (last - first))).1,
        p.overwrite b first (change ((old.drop first).take (last - first))).2) := by
  obtain ⟨v', s', hf', -, -, hc, rfl, hsize⟩ := h.exists_view hb
  rw [hf] at hf'
  cases hf'
  have hss := hc.le_stop
  have hstop := hc.stop_le_length
  have hwindow := slice_part hc hfirst (hsize ▸ hlast)
  generalize ((s.slice v.start v.stop).drop first).take (last - first) = window at hlen hwindow ⊢
  have hcopy : copy s.bytes (v.start + first) (v.start + last) (change window).2 =
      .ok (s.bytes.overlay (v.start + first) (change window).2) := copy_of_le (by omega) (by omega) (by omega)
  simp only [lend, hwindow, hcopy, bind, Except.bind, Pool.overwrite, hf]
  rfl

/-- After the buffer was detached, the range that was checked before is still there. -/
theorem write_eq (h : p.Valid) (hb : p.contents b = some old) (offset : Nat) (data : Bytes) :
    write p b offset data = .ok (p.write b offset data) := by
  have hset := (h.detach hb).1
  obtain ⟨v, s, hf, -⟩ := hset.valid.exists_view hset.self
  simp only [write, Pool.write, checkRange_eq h hb, detach_eq h hb, h.checkRange hb, hf, bind, Except.bind]
  by_cases hle : offset + data.length ≤ old.length
  · have hlend := lend_eq hset.valid hf hset.self (Nat.le_add_right offset data.length) hle (fun _ => ((), data))
      (Nat.add_sub_cancel_left _ _).symm
    rw [← Nat.add_assoc] at hlend
    simp only [if_pos hle, hlend]
    rfl
  · simp only [if_neg hle]
    rfl

/-- All bytes of the buffer are lent out. -/
theorem update_eq (h : p.Valid) (hb : p.contents b = some old) (change : Bytes → Bytes)
    (hlen : (change old).length = old.length) : update p b change = .ok (p.update b change) := by
  have hset := (h.detach hb).1
  obtain ⟨v, s, hf, -, -, hc, -, hsize⟩ := hset.valid.exists_view hset.self
  have hss := hc.le_stop
  have hlend := lend_eq hset.valid hf hset.self (Nat.zero_le _) (Nat.le_refl old.length)
    (fun window => ((), change window)) (by rw [List.drop_zero, Nat.sub_zero, List.take_length]; exact hlen)
  rw [Nat.add_zero, show v.start + old.length = v.stop by omega, List.drop_zero, Nat.sub_zero, List.take_length] at hlend
  simp only [update, Pool.update, detach_eq h hb, hf, hlend, bind, Except.bind, Pool.bytes_eq hset.self, ← hlen,
    List.take_length]
  rfl

/-- The new bytes are lent out: the first ones of the buffer, as many as were added. -/
theorem prependWith_eq (h : p.Valid) (hb : p.contents b = some old) {n : Nat} (fill : Bytes → ρ × Bytes)
    (hlen : (fill (Bytes.zeros n)).2.length = n) : prependWith p b n fill = .ok (p.prependWith b n fill) := by
  simp only [prependWith, Pool.prependWith, addAtStart_eq h hb, bind, Except.bind]
  cases hq : p.addAtStart b n with
  | error f => rfl
  | ok q =>
    have hset := (h.addAtStart hb hq).1
    obtain ⟨v, s, hf, -⟩ := hset.valid.exists_view hset.self
    have hwindow : (Bytes.zeros n ++ old).take n = Bytes.zeros n := List.take_left' (Bytes.length_zeros n)
    have hlend := lend_eq hset.valid hf hset.self (Nat.zero_le n) (by simp) fill
      (by rw [List.drop_zero, Nat.sub_zero, hwindow]; exact hlen)
    rw [Nat.add_zero, List.drop_zero, Nat.sub_zero, hwindow] at hlend
    simp only [hf, hlend, Pool.bytes_eq hset.self, hwindow, List.take_of_length_le (Nat.le_of_eq hlen)]
    rfl

/-- The new bytes are lent out: the last ones of the buffer, as many as were added. -/
theorem appendWith_eq (h : p.Valid) (hb : p.contents b = some old) {n : Nat} (fill : Bytes → ρ × Bytes)
    (hlen : (fill (Bytes.zeros n)).2.length = n) : appendWith p b n fill = .ok (p.appendWith b n fill) := by
  simp only [appendWith, Pool.appendWith, addAtEnd_eq h hb, h.size_eq hb, bind, Except.bind]
  cases hq : p.addAtEnd b n with
  | error f => rfl
  | ok q =>
    have hset := (h.addAtEnd hb hq).1
    obtain ⟨v, s, hf, -, -, hc, -, hsize⟩ := hset.valid.exists_view hset.self
    have hss := hc.le_stop
    rw [List.length_append, Bytes.length_zeros] at hsize
    have hwindow : (old ++ Bytes.zeros n).drop old.length = Bytes.zeros n := List.drop_left' rfl
    have htake : ((old ++ Bytes.zeros n).drop old.length).take (old.length + n - old.length) = Bytes.zeros n := by
      rw [hwindow, Nat.add_sub_cancel_left, List.take_of_length_le (Nat.le_of_eq (Bytes.length_zeros n))]
    have hlend := lend_eq hset.valid hf hset.self (Nat.le_add_right old.length n) (by simp) fill
      (by rw [htake, Nat.add_sub_cancel_left]; exact hlen)
    rw [htake, show v.start + old.length = v.stop - n by omega, show v.start + (old.length + n) = v.stop by omega] at hlend
    simp only [hf, minus_of_le (show n ≤ v.stop by omega), hlend, Pool.bytes_eq hset.self, hwindow,
      List.take_of_length_le (Nat.le_of_eq hlen)]
    rfl

/-- The bytes of the other buffer, read before the buffer grows, fill as many as were added. -/
theorem append_eq (h : p.Valid) (hb : p.contents b = some old) {data : Bytes} (hc : p.contents c = some data) :
    append p b c = .ok (p.append b c) := by
  simp only [append, Pool.append, bytes_eq h hc, Pool.bytes_eq hc, bind, Except.bind]
  rw [appendWith_eq h hb _ rfl]
  split <;> rfl

end Writing

/-! ## Histories -/

section Histories

open Operations

variable {ρ : Type} {d : Handles} {i : Nat}

/-- What is done with the buffer of a handle; an operation on a handle that was dropped changes nothing. -/
def on (d : Handles) (i : Nat) (f : Buffer → Except Breach (Except Fault (BufferAnswer ρ × Handles))) :
    Except Breach (Except Fault (BufferAnswer ρ × Handles)) :=
  onEntry d.buffers i (.ok (.ok (.ok none, d))) f

/-- One operation on buffers; copies and drops touch no bytes. -/
def apply (d : Handles) : BufferOp ρ → Except Breach (Except Fault (BufferAnswer ρ × Handles))
  | .ofBytes data => do return .ok (.ok none, d.make (← ofBytes d.pool data))
  | .ofSize n => do return (← ofSize d.pool n).map fun made => (.ok none, d.make made)
  | .clone i => on d i fun b => return .ok (.ok none, d.make (d.pool.clone b))
  | .fragment i offset length => on d i fun b => do return .ok (d.settle (← fragment d.pool b offset length) d.make)
  | .addAtStart i n => on d i fun b => do
    return (← addAtStart d.pool b n).map fun pool => (.ok none, { d with pool })
  | .addAtEnd i n => on d i fun b => do return (← addAtEnd d.pool b n).map fun pool => (.ok none, { d with pool })
  | .prependWith i n fill => on d i fun b => do
    return (← prependWith d.pool b n fill.run).map fun x => (.ok (some x.1), { d with pool := x.2 })
  | .appendWith i n fill => on d i fun b => do
    return (← appendWith d.pool b n fill.run).map fun x => (.ok (some x.1), { d with pool := x.2 })
  | .removeAtStart i n => on d i fun b => do
    return .ok (d.settle (← removeAtStart d.pool b n) fun pool => { d with pool })
  | .removeAtEnd i n => on d i fun b => do
    return .ok (d.settle (← removeAtEnd d.pool b n) fun pool => { d with pool })
  | .write i offset data => on d i fun b => do
    return .ok (d.settle (← write d.pool b offset data) fun pool => { d with pool })
  | .update i change => on d i fun b => do
    return .ok (.ok none, { d with pool := ← update d.pool b fun bytes => (change.run bytes).2 })
  | .append i j => on d i fun b => on d j fun c => do
    return (← append d.pool b c).map fun pool => (.ok none, { d with pool })
  | .drop i => on d i fun b => return .ok (.ok none, ⟨d.pool.drop b, d.buffers.set i none⟩)

/-- The operations one after the other, with all answers. -/
def exec (d : Handles) : List (BufferOp ρ) → Except Breach (Except Fault (List (BufferAnswer ρ) × Handles))
  | [] => return .ok ([], d)
  | op :: ops => do
    match ← apply d op with
    | .error f => return .error f
    | .ok (answer, d) => return (← exec d ops).map fun x => (answer :: x.1, x.2)

/-- A handle that was not dropped has a live buffer, for which no check fails. -/
theorem on_eq (h : d.Valid) {f : Buffer → Except Breach (Except Fault (BufferAnswer ρ × Handles))}
    {g : Buffer → Except Fault (BufferAnswer ρ × Handles)}
    (hf : ∀ b old, d.pool.contents b = some old → f b = .ok (g b)) : on d i f = .ok (d.on i g) := by
  unfold on Handles.on onEntry
  cases hb : d.buffers[i]?.join with
  | none => rfl
  | some b =>
    obtain ⟨old, hold⟩ := h.live (Option.join_eq_some_iff.1 hb)
    exact hf b old hold

/-- No operation on handles fails a check: each of them does with the checks what it does without them. -/
theorem apply_eq (h : d.Valid) (op : BufferOp ρ) : apply d op = .ok (d.apply op) := by
  have hp : d.pool.Valid := h.valid
  cases op with
  | ofBytes data => rw [apply, ofBytes_eq]; rfl
  | ofSize n => rw [apply, ofSize_eq]; rfl
  | clone i => exact on_eq h fun b old hb => rfl
  | fragment i offset length => exact on_eq h fun b old hb => by rw [fragment_eq hp hb]; rfl
  | addAtStart i n => exact on_eq h fun b old hb => by rw [addAtStart_eq hp hb]; rfl
  | addAtEnd i n => exact on_eq h fun b old hb => by rw [addAtEnd_eq hp hb]; rfl
  | prependWith i n fill =>
    have hlen := (fill.length_run (Bytes.zeros n)).trans (Bytes.length_zeros n)
    exact on_eq h fun b old hb => by rw [prependWith_eq hp hb fill.run hlen]; rfl
  | appendWith i n fill =>
    have hlen := (fill.length_run (Bytes.zeros n)).trans (Bytes.length_zeros n)
    exact on_eq h fun b old hb => by rw [appendWith_eq hp hb fill.run hlen]; rfl
  | removeAtStart i n => exact on_eq h fun b old hb => by rw [removeAtStart_eq hp hb]; rfl
  | removeAtEnd i n => exact on_eq h fun b old hb => by rw [removeAtEnd_eq hp hb]; rfl
  | write i offset data => exact on_eq h fun b old hb => by rw [write_eq hp hb]; rfl
  | update i change => exact on_eq h fun b old hb => by rw [update_eq hp hb _ (change.length_run old)]; rfl
  | append i j => exact on_eq h fun b old hb => on_eq h fun c data hc => by rw [append_eq hp hb hc]; rfl
  | drop i => exact on_eq h fun b old hb => rfl

/-- By induction on the operations: each of them leaves live buffers for the next one. -/
theorem exec_eq (h : d.Valid) (ops : List (BufferOp ρ)) : exec d ops = .ok (Operations.exec Handles.apply d ops) := by
  induction ops generalizing d with
  | nil => rfl
  | cons op ops ih =>
    simp only [exec, Operations.exec, apply_eq h, bind, Except.bind]
    cases hx : d.apply op with
    | error f => rfl
    | ok x =>
      obtain ⟨answer, d₁⟩ := x
      simp only [ih ((h.keeps_apply op).same answer d₁ hx).1]
      rfl

end Histories

/-- No check fails when the buffer is looked at. -/
structure Shows (p : Pool) (b : Buffer) : Prop where
  size : Guarded.size p b = .ok (p.size b)
  stopMargin : Guarded.stopMargin p b = .ok (p.stopMargin b)
  bytes : Guarded.bytes p b = .ok (p.bytes b)
  copyTo : ∀ target, Guarded.copyTo p b target = .ok (p.copyTo b target)
  read : ∀ offset length, Guarded.read p b offset length = .ok (p.read b offset length)
  describe : Guarded.describe p b = .ok (p.describe b)

/-- No check fails when a live buffer of a well-formed pool is looked at. -/
theorem shows_of_valid {p : Pool} {b : Buffer} {old : Bytes} (h : p.Valid) (hb : p.contents b = some old) : Shows p b :=
  ⟨size_eq h hb, stopMargin_eq h hb, bytes_eq h hb, copyTo_eq h hb, read_eq h hb, describe_eq h hb⟩

end Guarded

namespace Handles

open Operations

variable {ρ : Type}

/-- **Buffers stay within bounds.** Whatever is done to any number of buffers, in any order, no check of any operation
fails: with all checks the operations do what they do without them, and all of them have answers unless no byte string can
be as long as the storage that is needed. Afterwards no check of a further operation fails. Every live buffer lies in the
used range of its storage, that range lies in the storage, and no check fails when the buffer is looked at or compared. -/
theorem exec_guarded (ops : List (BufferOp ρ)) :
    Guarded.exec empty ops = .ok (exec apply empty ops) ∧
      (AllFit Values.apply Values.Fits [] ops → ∃ answers d, Guarded.exec empty ops = .ok (.ok (answers, d))) ∧
      ∀ answers d, Guarded.exec empty ops = .ok (.ok (answers, d)) →
        (∀ op : BufferOp ρ, Guarded.apply d op = .ok (d.apply op)) ∧
          ∀ (i : Nat) b, d.buffers[i]? = some (some b) →
            (∃ v s, d.pool.view? b = some v ∧ d.pool.storages[v.storage]? = some s ∧ s.usedStart ≤ v.start ∧
              v.start ≤ v.stop ∧ v.stop ≤ s.usedStop ∧ s.usedStop ≤ s.bytes.length) ∧
            Guarded.Shows d.pool b ∧
            ∀ (j : Nat) c, d.buffers[j]? = some (some c) → Guarded.sameBytes d.pool b c = .ok (d.pool.sameBytes b c) := by
  have hkeeps := keeps_exec (fun d op hd => Valid.keeps_apply (ρ := ρ) hd op) valid_empty ops
  rw [Guarded.exec_eq valid_empty]
  refine ⟨rfl, fun hfit => ?_, fun answers d he => ?_⟩
  · obtain ⟨⟨answers, d⟩, hz⟩ := hkeeps.total hfit
    exact ⟨answers, d, congrArg Except.ok hz⟩
  · have hd : d.Valid := (hkeeps.same answers d (Except.ok.inj he)).1
    refine ⟨Guarded.apply_eq hd, fun i b hi => ?_⟩
    obtain ⟨old, hb⟩ := hd.live hi
    obtain ⟨v, s, -, hv, hs, hc, -⟩ := hd.valid.exists_view hb
    refine ⟨⟨v, s, hv, hs, hc.start_le, hc.le_stop, hc.stop_le, hc.le_length⟩, Guarded.shows_of_valid hd.valid hb, ?_⟩
    intro j c hj
    obtain ⟨data, hcdata⟩ := hd.live hj
    exact Guarded.sameBytes_eq hd.valid hb hcdata

/-- A buffer that grows in the storage that it shares with a copy, and the copy that goes on from an older edge. -/
def copyGrown : List (BufferOp Unit) := [.ofBytes [1, 2, 3], .clone 0, .addAtEnd 0 2, .addAtStart 1 2]

/-- Both buffers have grown in the storage that they share, and every check at both edges passed. -/
theorem exec_guarded_copyGrown :
    ∃ answers d, Guarded.exec empty copyGrown = .ok (.ok (answers, d)) ∧ d.pool.view? ⟨1⟩ = some ⟨0, 64, 69⟩ ∧
      d.pool.view? ⟨2⟩ = some ⟨0, 62, 67⟩ ∧ ∃ s, d.pool.storages[0]? = some s ∧ s.usedStart ≤ 62 ∧ 67 ≤ s.usedStop ∧
        Guarded.sameBytes d.pool ⟨1⟩ ⟨2⟩ = .ok false := by
  obtain ⟨hexec, -, hafter⟩ := exec_guarded copyGrown
  have hrun : Guarded.exec empty copyGrown = .ok (.ok (_, _)) := hexec.trans rfl
  obtain ⟨-, hlive⟩ := hafter _ _ hrun
  obtain ⟨-, -, hsame⟩ := hlive 0 ⟨1⟩ rfl
  obtain ⟨⟨v, s, hv, hs, hstart, -, hstop, -⟩, -⟩ := hlive 1 ⟨2⟩ rfl
  cases hv
  exact ⟨_, _, hrun, rfl, rfl, s, hs, hstart, hstop, (hsame 1 ⟨2⟩ rfl).trans rfl⟩

end Handles

end SimKernel
