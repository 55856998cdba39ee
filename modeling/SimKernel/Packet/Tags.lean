import SimKernel.Text.Quoted

/-!
# Tags

Notes that travel with a packet without being part of its bytes. A byte tag covers a range of bytes and moves with
them; the list keeps the order in which tags were added. Packet tags describe the packet as a whole, at most one of each
kind.
-/

namespace SimKernel

/-- Values that may serve as tags; the kind tells which of them are of one sort. -/
class Tag (τ : Type) where
  kind : τ → String

/-- A tag on the bytes from `start` up to `stop`. -/
structure ByteTag (τ : Type) where
  tag : τ
  start : Nat
  stop : Nat
deriving DecidableEq, Repr

abbrev ByteTags (τ : Type) := List (ByteTag τ)

abbrev PacketTags (τ : Type) := List τ

/-! ## Byte tags -/

namespace ByteTags

variable {τ : Type}

/-- The tags moved by `n` bytes toward the end. -/
def shift (ts : ByteTags τ) (n : Nat) : ByteTags τ :=
  ts.map fun t => { t with start := t.start + n, stop := t.stop + n }

/-- The part of a tag inside the bytes from `start` up to `stop`, counted from `start`. -/
def clipOne (start stop : Nat) (t : ByteTag τ) : Option (ByteTag τ) :=
  let first := max t.start start
  let last := min t.stop stop
  if first < last then some { t with start := first - start, stop := last - start } else none

/-- The tags on the bytes from `start` up to `stop`, counted from `start`. -/
def clip (ts : ByteTags τ) (start stop : Nat) : ByteTags τ :=
  ts.filterMap (clipOne start stop)

/-- The tags of one kind. -/
def ofKind [Tag τ] (ts : ByteTags τ) (kind : String) : ByteTags τ :=
  ts.filter fun t => Tag.kind t.tag == kind

end ByteTags

/-! ## Packet tags -/

namespace PacketTags

variable {τ : Type} [Tag τ]

/-- The tag of a kind. -/
def find? (ts : PacketTags τ) (kind : String) : Option τ :=
  List.find? (fun t => Tag.kind t == kind) ts

/-- The tags with a further one, and whether it was added; a tag of the same kind stays in its place. -/
def add (ts : PacketTags τ) (t : τ) : Bool × PacketTags τ :=
  if (find? ts (Tag.kind t)).isSome then (false, ts) else (true, ts ++ [t])

/-- The tags without that of a kind. -/
def remove (ts : PacketTags τ) (kind : String) : PacketTags τ :=
  List.eraseP (fun t => Tag.kind t == kind) ts

/-- The tags with one in place of that of its kind. -/
def replace (ts : PacketTags τ) (t : τ) : PacketTags τ :=
  remove ts (Tag.kind t) ++ [t]

end PacketTags

end SimKernel
