import Std.Data.TreeMap.Basic
import SimKernel.Buffer.Error
import SimKernel.Buffer.Storage

/-!
# Buffers

Byte buffers that share what they have in common. A pool holds the storages and, for every live buffer, the part of a
storage that it looks at; a buffer is its name in the pool. Copies and fragments look at the storage of their origin.
Bytes are added at either end in place if the space next to the buffer belongs to nobody, and otherwise in a new
storage with room to grow further. Writing gives a buffer that shares its storage one of its own first. So no operation
on one buffer changes the bytes of another.

An operation on a buffer that was dropped changes nothing. An operation that needs a new storage is a fault if no byte
string can be as long as that storage.
-/

namespace SimKernel

/-- The name of a buffer. -/
structure Buffer where
  id : Nat
deriving DecidableEq, Repr

/-- The part of a storage that a buffer looks at. -/
structure View where
  storage : Nat
  start : Nat
  stop : Nat
deriving DecidableEq, Repr

/-- All storages and all live buffers; storages and buffers are numbered from one counter. -/
structure Pool where
  storages : Std.TreeMap Nat Storage
  views : Std.TreeMap Nat View
  next : Nat

namespace Pool

/-- The least room before the bytes of a new storage. -/
def startRoom : Nat := 64

/-- The least room after the bytes of a new storage. -/
def stopRoom : Nat := 32

/-- A pool without buffers. -/
def empty : Pool := ⟨∅, ∅, 0⟩

instance : Inhabited Pool := ⟨empty⟩

/-! ## Looking at a buffer -/

def view? (p : Pool) (b : Buffer) : Option View :=
  p.views[b.id]?

/-- The part of a storage that a live buffer looks at, with that storage. -/
def find? (p : Pool) (b : Buffer) : Option (View × Storage) := do
  let v ← p.view? b
  let s ← p.storages[v.storage]?
  return (v, s)

/-- The bytes of the buffer. -/
def bytes (p : Pool) (b : Buffer) : Bytes :=
  match p.find? b with
  | some (v, s) => s.slice v.start v.stop
  | none => []

/-- The number of bytes of the buffer. -/
def size (p : Pool) (b : Buffer) : Nat :=
  match p.view? b with
  | some v => v.stop - v.start
  | none => 0

/-- The room before the buffer in its storage. -/
def startMargin (p : Pool) (b : Buffer) : Nat :=
  match p.view? b with
  | some v => v.start
  | none => 0

/-- The room after the buffer in its storage. -/
def stopMargin (p : Pool) (b : Buffer) : Nat :=
  match p.find? b with
  | some (v, s) => s.bytes.length - v.stop
  | none => 0

/-- Another live buffer looks at the same storage. -/
def isShared (p : Pool) (b : Buffer) : Bool :=
  match p.view? b with
  | some v => p.views.toList.any fun (id, w) => id != b.id && w.storage == v.storage
  | none => false

/-- The two buffers hold the same bytes. -/
def sameBytes (p : Pool) (a b : Buffer) : Bool :=
  p.bytes a == p.bytes b

/-- The bytes of the buffer in place of the first ones of `target`, as many as fit, and their number. -/
def copyTo (p : Pool) (b : Buffer) (target : Bytes) : Nat × Bytes :=
  let data := (p.bytes b).take target.length
  (data.length, target.overlay 0 data)

/-- The buffer's size and place in its storage as text. -/
def describe (p : Pool) (b : Buffer) : String :=
  "Buffer \x7b size: " ++ toString (p.size b) ++ ", start_margin: " ++ toString (p.startMargin b) ++
    ", end_margin: " ++ toString (p.stopMargin b) ++ ", shared: " ++ toString (p.isShared b) ++ " \x7d"

/-! ## Making and dropping buffers -/

/-- A new buffer that looks at the used range of a new storage. -/
def ofStorage (p : Pool) (s : Storage) : Buffer × Pool :=
  (⟨p.next + 1⟩,
    { storages := p.storages.insert p.next s
      views := p.views.insert (p.next + 1) ⟨p.next, s.usedStart, s.usedStop⟩
      next := p.next + 2 })

/-- A new buffer with the given bytes. -/
def ofBytes (p : Pool) (data : Bytes) : Buffer × Pool :=
  p.ofStorage (Storage.layout startRoom data stopRoom)

/-- A new buffer of `n` zero bytes. -/
def ofSize (p : Pool) (n : Nat) : Except Fault (Buffer × Pool) := do
  Bytes.checkLength n
  return p.ofBytes (Bytes.zeros n)

/-- A new buffer that looks at `v`. -/
def ofView (p : Pool) (v : View) : Buffer × Pool :=
  (⟨p.next⟩, { p with views := p.views.insert p.next v, next := p.next + 1 })

/-- A new buffer with the bytes of another. -/
def clone (p : Pool) (b : Buffer) : Buffer × Pool :=
  match p.view? b with
  | some v => p.ofView v
  | none => p.ofBytes []

/-- Forgets a storage that no live buffer looks at. -/
def collect (p : Pool) (storage : Nat) : Pool :=
  if p.views.toList.any fun (_, v) => v.storage == storage then p
  else { p with storages := p.storages.erase storage }

/-- Ends the life of a buffer. -/
def drop (p : Pool) (b : Buffer) : Pool :=
  match p.view? b with
  | some v => { p with views := p.views.erase b.id }.collect v.storage
  | none => p

/-! ## Changing a buffer -/

/-- Makes a live buffer look at the used range of a new storage, and nothing look at it in its old one. -/
def relocate (p : Pool) (b : Buffer) (s : Storage) : Pool :=
  match p.view? b with
  | some v =>
    { storages := p.storages.insert p.next s
      views := p.views.insert b.id ⟨p.next, s.usedStart, s.usedStop⟩
      next := p.next + 1 : Pool }.collect v.storage
  | none => p

/-- The used range of a storage that nobody else looks at is what the buffer looks at. -/
def reclaimed (p : Pool) (b : Buffer) (v : View) (s : Storage) : Storage :=
  if p.isShared b then s else { s with usedStart := v.start, usedStop := v.stop }

/-- Puts `n` zero bytes before those of the buffer. -/
def addAtStart (p : Pool) (b : Buffer) (n : Nat) : Except Fault Pool :=
  match p.find? b with
  | none => .ok p
  | some (v, s) =>
    if n = 0 then .ok p
    else
      let s := p.reclaimed b v s
      if n ≤ v.start ∧ s.usedStart = v.start then
        .ok { p with
          storages := p.storages.insert v.storage { s.write (v.start - n) (Bytes.zeros n) with usedStart := v.start - n }
          views := p.views.insert b.id { v with start := v.start - n } }
      else do
        let data := s.slice v.start v.stop
        let room := max startRoom (data.length / 2)
        Bytes.checkLength (room + n + data.length + stopRoom)
        return p.relocate b (Storage.layout room (Bytes.zeros n ++ data) stopRoom)

/-- Puts `n` zero bytes after those of the buffer. -/
def addAtEnd (p : Pool) (b : Buffer) (n : Nat) : Except Fault Pool :=
  match p.find? b with
  | none => .ok p
  | some (v, s) =>
    if n = 0 then .ok p
    else
      let s := p.reclaimed b v s
      if n ≤ s.bytes.length - v.stop ∧ s.usedStop = v.stop then
        .ok { p with
          storages := p.storages.insert v.storage { s.write v.stop (Bytes.zeros n) with usedStop := v.stop + n }
          views := p.views.insert b.id { v with stop := v.stop + n } }
      else do
        let data := s.slice v.start v.stop
        let room := max stopRoom (data.length / 2)
        Bytes.checkLength (startRoom + data.length + n + room)
        return p.relocate b (Storage.layout startRoom (data ++ Bytes.zeros n) room)

/-- Puts `data` in place of bytes of the buffer's storage, for every buffer that looks at them. -/
def overwrite (p : Pool) (b : Buffer) (offset : Nat) (data : Bytes) : Pool :=
  match p.find? b with
  | some (v, s) => { p with storages := p.storages.insert v.storage (s.write (v.start + offset) data) }
  | none => p

/-- Puts `n` bytes before those of the buffer; `fill` gets them as zeros and answers what they become. -/
def prependWith {ρ : Type} (p : Pool) (b : Buffer) (n : Nat) (fill : Bytes → ρ × Bytes) : Except Fault (ρ × Pool) := do
  let p ← p.addAtStart b n
  let (answer, data) := fill ((p.bytes b).take n)
  return (answer, p.overwrite b 0 (data.take n))

/-- Puts `n` bytes after those of the buffer; `fill` gets them as zeros and answers what they become. -/
def appendWith {ρ : Type} (p : Pool) (b : Buffer) (n : Nat) (fill : Bytes → ρ × Bytes) : Except Fault (ρ × Pool) := do
  let offset := p.size b
  let p ← p.addAtEnd b n
  let (answer, data) := fill ((p.bytes b).drop offset)
  return (answer, p.overwrite b offset (data.take n))

/-- Takes `n` bytes off the start. -/
def removeAtStart (p : Pool) (b : Buffer) (n : Nat) : Except BufferError Pool :=
  if n ≤ p.size b then .ok { p with views := p.views.modify b.id fun v => { v with start := v.start + n } }
  else .error (.underflow n (p.size b))

/-- Takes `n` bytes off the end. -/
def removeAtEnd (p : Pool) (b : Buffer) (n : Nat) : Except BufferError Pool :=
  if n ≤ p.size b then .ok { p with views := p.views.modify b.id fun v => { v with stop := v.stop - n } }
  else .error (.underflow n (p.size b))

/-- An error unless the buffer holds `length` bytes from `offset`. -/
def checkRange (p : Pool) (b : Buffer) (offset length : Nat) : Except BufferError Unit :=
  if offset + length ≤ p.size b then .ok () else .error (.outOfBounds offset length (p.size b))

/-- Gives a buffer that shares its storage one of its own, with the same room at both ends. -/
def detach (p : Pool) (b : Buffer) : Pool :=
  match p.find? b with
  | some (v, s) =>
    if p.isShared b then p.relocate b (Storage.layout v.start (s.slice v.start v.stop) (s.bytes.length - v.stop)) else p
  | none => p

/-- Puts `data` in place of the bytes from `offset`. -/
def write (p : Pool) (b : Buffer) (offset : Nat) (data : Bytes) : Except BufferError Pool := do
  p.checkRange b offset data.length
  return (p.detach b).overwrite b offset data

/-- The `length` bytes from `offset`. -/
def read (p : Pool) (b : Buffer) (offset length : Nat) : Except BufferError Bytes := do
  p.checkRange b offset length
  return ((p.bytes b).drop offset).take length

/-- Changes the bytes of the buffer in place; what `change` answers beyond their number is left out. -/
def update (p : Pool) (b : Buffer) (change : Bytes → Bytes) : Pool :=
  let p := p.detach b
  let data := p.bytes b
  p.overwrite b 0 ((change data).take data.length)

/-- A new buffer with the `length` bytes from `offset`. -/
def fragment (p : Pool) (b : Buffer) (offset length : Nat) : Except BufferError (Buffer × Pool) := do
  p.checkRange b offset length
  match p.view? b with
  | some v => return p.ofView { v with start := v.start + offset, stop := v.start + offset + length }
  | none => return p.ofBytes []

/-- Puts the bytes of another buffer after those of the buffer. -/
def append (p : Pool) (b other : Buffer) : Except Fault Pool :=
  let data := p.bytes other
  if data.isEmpty then .ok p else (p.appendWith b data.length fun _ => ((), data)).map Prod.snd

end Pool

end SimKernel
