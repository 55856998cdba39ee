import SimKernel.Buffer.Pool
import SimKernel.Packet.Tags
import SimKernel.Wire.Codec

/-!
# Packets

A packet is a buffer with byte tags, packet tags and a number of its own. Headers are put before its bytes and trailers
after them; tags stay on the bytes that they were put on. A store holds the bytes of all packets and numbers new ones.
-/

namespace SimKernel

/-- A numbered buffer with tags. -/
structure Packet (τ : Type) where
  uid : Nat
  buffer : Buffer
  byteTags : ByteTags τ
  packetTags : PacketTags τ

/-- The bytes of all packets, and the number of the next one. -/
structure PacketStore where
  pool : Pool
  nextUid : Nat

/-- A store without packets. -/
def PacketStore.empty : PacketStore := ⟨Pool.empty, 0⟩

instance : Inhabited PacketStore := ⟨PacketStore.empty⟩

/-- Numbers further packets from zero. -/
def PacketStore.resetUids (s : PacketStore) : PacketStore :=
  { s with nextUid := 0 }

namespace Packet

variable {τ β : Type}

/-! ## Making and dropping packets -/

/-- A new packet without tags for a new buffer. -/
def ofBuffer (s : PacketStore) (made : Buffer × Pool) : Packet τ × PacketStore :=
  (⟨s.nextUid, made.1, [], []⟩, ⟨made.2, s.nextUid + 1⟩)

/-- A new packet with the given bytes. -/
def ofBytes (s : PacketStore) (data : Bytes) : Packet τ × PacketStore :=
  ofBuffer s (s.pool.ofBytes data)

/-- A new packet of `n` zero bytes. -/
def ofSize (s : PacketStore) (n : Nat) : Except Fault (Packet τ × PacketStore) :=
  (s.pool.ofSize n).map (ofBuffer s)

/-- A new packet with the bytes and tags of another. -/
def copy (p : Packet τ) (s : PacketStore) : Packet τ × PacketStore :=
  let (buffer, pool) := s.pool.clone p.buffer
  ({ p with uid := s.nextUid, buffer }, ⟨pool, s.nextUid + 1⟩)

/-- A new packet with the `length` bytes from `start`, the tags on them and all packet tags. -/
def fragment (p : Packet τ) (s : PacketStore) (start length : Nat) : Except PacketError (Packet τ × PacketStore) := do
  let (buffer, pool) ← (s.pool.fragment p.buffer start length).mapError .buffer
  return (⟨s.nextUid, buffer, p.byteTags.clip start (start + length), p.packetTags⟩, ⟨pool, s.nextUid + 1⟩)

/-- Ends the life of a packet. -/
def drop (p : Packet τ) (s : PacketStore) : PacketStore :=
  { s with pool := s.pool.drop p.buffer }

/-! ## Bytes -/

def bytes (p : Packet τ) (s : PacketStore) : Bytes := s.pool.bytes p.buffer

def size (p : Packet τ) (s : PacketStore) : Nat := s.pool.size p.buffer

/-- Takes `n` bytes off the start, with the tags on them. -/
def removeAtStart (p : Packet τ) (s : PacketStore) (n : Nat) : Except PacketError (Packet τ × PacketStore) := do
  let pool ← (s.pool.removeAtStart p.buffer n).mapError .buffer
  return ({ p with byteTags := p.byteTags.clip n (n + pool.size p.buffer) }, { s with pool })

/-- Takes `n` bytes off the end, with the tags on them. -/
def removeAtEnd (p : Packet τ) (s : PacketStore) (n : Nat) : Except PacketError (Packet τ × PacketStore) := do
  let pool ← (s.pool.removeAtEnd p.buffer n).mapError .buffer
  return ({ p with byteTags := p.byteTags.clip 0 (pool.size p.buffer) }, { s with pool })

/-- Puts `n` zero bytes after those of the packet. -/
def addPadding (p : Packet τ) (s : PacketStore) (n : Nat) : Except Fault PacketStore := do
  return { s with pool := ← s.pool.addAtEnd p.buffer n }

/-- Puts the bytes of another packet after those of the packet, with the tags on them. -/
def append (p other : Packet τ) (s : PacketStore) : Except Fault (Packet τ × PacketStore) := do
  let pool ← s.pool.append p.buffer other.buffer
  return ({ p with byteTags := p.byteTags ++ other.byteTags.shift (p.size s) }, { s with pool })

/-! ## Headers and trailers -/

/-- Fills the window with a value; if that fails, the window is left alone. -/
def filled (c : Codec β) (value : β) (window : Bytes) : Except PacketError Unit × Bytes :=
  match c.fill value window with
  | .ok data => (.ok (), data)
  | .error e => (.error e, window)

/-- Puts a header before the bytes. -/
def addHeader (p : Packet τ) (s : PacketStore) (c : Codec β) (header : β) :
    Except Fault (Except PacketError (Packet τ) × PacketStore) := do
  let size := c.size header
  let (outcome, pool) ← s.pool.prependWith p.buffer size (filled c header)
  match outcome with
  | .ok () => return (.ok { p with byteTags := p.byteTags.shift size }, { s with pool })
  | .error e =>
    match pool.removeAtStart p.buffer size with
    | .ok pool => return (.error e, { s with pool })
    | .error e => return (.error (.buffer e), { s with pool })

/-- Puts a trailer after the bytes. -/
def addTrailer (p : Packet τ) (s : PacketStore) (c : Codec β) (trailer : β) :
    Except Fault (Except PacketError Unit × PacketStore) := do
  let size := c.size trailer
  let (outcome, pool) ← s.pool.appendWith p.buffer size (filled c trailer)
  match outcome with
  | .ok () => return (.ok (), { s with pool })
  | .error e =>
    match pool.removeAtEnd p.buffer size with
    | .ok pool => return (.error e, { s with pool })
    | .error e => return (.error (.buffer e), { s with pool })

/-- The header that the packet starts with; an empty packet has none. -/
def peekHeader (p : Packet τ) (s : PacketStore) (c : Codec β) : Except PacketError (Option β) :=
  if p.size s = 0 then .ok none else (c.readStart (p.bytes s)).map fun (header, _) => some header

/-- The trailer that the packet ends with; an empty packet has none. -/
def peekTrailer (p : Packet τ) (s : PacketStore) (c : Codec β) : Except PacketError (Option β) :=
  if p.size s = 0 then .ok none else (c.readEnd (p.bytes s)).map fun (trailer, _) => some trailer

/-- Takes the header off the start. -/
def removeHeader (p : Packet τ) (s : PacketStore) (c : Codec β) : Except PacketError (β × Packet τ × PacketStore) := do
  let (header, consumed) ← c.readStart (p.bytes s)
  return (header, ← p.removeAtStart s consumed)

/-- Takes the trailer off the end. -/
def removeTrailer (p : Packet τ) (s : PacketStore) (c : Codec β) : Except PacketError (β × Packet τ × PacketStore) := do
  let (trailer, consumed) ← c.readEnd (p.bytes s)
  return (trailer, ← p.removeAtEnd s consumed)

/-! ## Tags -/

/-- Puts a tag on the bytes from `start` up to `stop`. -/
def addByteTagRange (p : Packet τ) (s : PacketStore) (tag : τ) (start stop : Nat) : Except PacketError (Packet τ) :=
  if start < stop ∧ stop ≤ p.size s then .ok { p with byteTags := p.byteTags ++ [⟨tag, start, stop⟩] }
  else .error (.tagRangeOutOfBounds start stop (p.size s))

/-- Puts a tag on all bytes. -/
def addByteTag (p : Packet τ) (s : PacketStore) (tag : τ) : Except PacketError (Packet τ) :=
  p.addByteTagRange s tag 0 (p.size s)

def clearByteTags (p : Packet τ) : Packet τ :=
  { p with byteTags := [] }

/-- The packet tag of a kind. -/
def packetTag? [Tag τ] (p : Packet τ) (kind : String) : Option τ :=
  PacketTags.find? p.packetTags kind

/-- Attaches a packet tag, and whether it was attached; a tag of the same kind stays in its place. -/
def addPacketTag [Tag τ] (p : Packet τ) (tag : τ) : Bool × Packet τ :=
  let (added, packetTags) := PacketTags.add p.packetTags tag
  (added, { p with packetTags })

/-- Detaches the packet tag of a kind, which is the answer. -/
def removePacketTag [Tag τ] (p : Packet τ) (kind : String) : Option τ × Packet τ :=
  (p.packetTag? kind, { p with packetTags := PacketTags.remove p.packetTags kind })

/-- Attaches a packet tag in place of the one of its kind, which is the answer. -/
def replacePacketTag [Tag τ] (p : Packet τ) (tag : τ) : Option τ × Packet τ :=
  (p.packetTag? (Tag.kind tag), { p with packetTags := PacketTags.replace p.packetTags tag })

def clearPacketTags (p : Packet τ) : Packet τ :=
  { p with packetTags := [] }

/-- The packet's number, size and kinds of tags as text. -/
def describe [Tag τ] (p : Packet τ) (s : PacketStore) : String :=
  let byteTag (t : ByteTag τ) : String :=
    "(" ++ Text.quote (Tag.kind t.tag).toList ++ ", " ++ toString t.start ++ ".." ++ toString t.stop ++ ")"
  let packetTag (t : τ) : String := Text.quote (Tag.kind t).toList
  "Packet \x7b uid: " ++ toString p.uid ++ ", size: " ++ toString (p.size s) ++
    ", byte_tags: [" ++ ", ".intercalate (p.byteTags.map byteTag) ++
    "], packet_tags: [" ++ ", ".intercalate (p.packetTags.map packetTag) ++ "] \x7d"

end Packet

end SimKernel
