import SimKernel.Text.Digits
import SimKernel.Wire.Codec

/-!
# Formats

Formats of common headers and trailers: an internet header with a checksum, a port header, an option list, a frame
check sequence and a sequence number.
-/

namespace SimKernel

/-- The header of an internet packet, without its constant fields. -/
structure NetHeader where
  totalLength : Nat
  id : Nat
  ttl : Nat
  protocol : Nat
  source : Nat
  destination : Nat
deriving DecidableEq, Repr

/-- The header of a datagram between ports. -/
structure PortHeader where
  source : Nat
  destination : Nat
  length : Nat
  sequence : Nat
deriving DecidableEq, Repr

/-- A list of options, as bytes. -/
structure OptionsHeader where
  options : Bytes
deriving DecidableEq, Repr

/-- A frame check sequence. -/
structure CheckTrailer where
  value : Nat
deriving DecidableEq, Repr

/-- A sequence number. -/
structure SequenceTrailer where
  value : Nat
deriving DecidableEq, Repr

/-- A 32-bit address as four numbers between points. -/
def dottedAddress (address : Nat) : String :=
  ".".intercalate ((ByteOrder.big.encode 4 address).map fun b => toString b.toNat)

/-- A byte in base sixteen, with two digits and a mark of the base. -/
def markedHexByte (n : Nat) : String :=
  let digits := Nat.toDigits 16 n
  String.ofList (['0', 'x'] ++ List.replicate (2 - digits.length) '0' ++ digits)

/-- Twenty bytes whose checksum is zero: the checksum field is filled in last, over the whole window. -/
def NetHeader.codec : Codec NetHeader where
  name := "NetHeader"
  size _ := 20
  encode h _ w := do
    let w ← w.number .u8 0x45
    let w ← w.number .u8 0
    let w ← w.number (.u16 .big) h.totalLength
    let w ← w.number (.u16 .big) h.id
    let w ← w.number (.u16 .big) 0
    let w ← w.number .u8 h.ttl
    let w ← w.number .u8 h.protocol
    let w ← w.number (.u16 .big) 0
    let w ← w.number (.u32 .big) h.source
    let w ← w.number (.u32 .big) h.destination
    let sum := internetChecksum w.window 0
    let w ← w.prev 10
    let w ← w.number (.u16 .big) sum
    w.skip 8
  decode r := do
    let (sum, _) ← r.checksum 20 0
    if sum ≠ 0 then
      throw (.malformed "NetHeader" "header checksum mismatch")
    let (version, r) ← r.number .u8
    if version ≠ 0x45 then
      throw (.malformed "NetHeader" ("unsupported version byte " ++ markedHexByte version))
    let r ← r.skip 1
    let (totalLength, r) ← r.number (.u16 .big)
    let (id, r) ← r.number (.u16 .big)
    let r ← r.skip 2
    let (ttl, r) ← r.number .u8
    let (protocol, r) ← r.number .u8
    let r ← r.skip 2
    let (source, r) ← r.number (.u32 .big)
    let (destination, r) ← r.number (.u32 .big)
    return (⟨totalLength, id, ttl, protocol, source, destination⟩, r)
  describe h :=
    "net " ++ dottedAddress h.source ++ " > " ++ dottedAddress h.destination ++ " ttl " ++ toString h.ttl ++
      " proto " ++ toString h.protocol ++ " length " ++ toString h.totalLength

def PortHeader.codec : Codec PortHeader where
  name := "PortHeader"
  size _ := 8
  encode h _ w := do
    let w ← w.number (.u16 .big) h.source
    let w ← w.number (.u16 .big) h.destination
    let w ← w.number (.u16 .big) h.length
    w.number (.u16 .big) h.sequence
  decode r := do
    let (source, r) ← r.number (.u16 .big)
    let (destination, r) ← r.number (.u16 .big)
    let (length, r) ← r.number (.u16 .big)
    let (sequence, r) ← r.number (.u16 .big)
    return (⟨source, destination, length, sequence⟩, r)

/-- The number of options in one byte, then the options. -/
def OptionsHeader.codec : Codec OptionsHeader where
  name := "OptionsHeader"
  size h := 1 + h.options.length
  encode h _ w := do
    let w ← w.number .u8 h.options.length
    w.bytes h.options
  decode r := do
    let (n, r) ← r.number .u8
    let (options, r) ← r.take n
    return (⟨options⟩, r)

def CheckTrailer.codec : Codec CheckTrailer where
  name := "FcsTrailer"
  size _ := 4
  encode t _ w := w.number (.u32 .big) t.value
  decode r := do
    let r ← r.prev 4
    let (value, r) ← r.number (.u32 .big)
    return (⟨value⟩, r)

def SequenceTrailer.codec : Codec SequenceTrailer where
  name := "SeqTrailer"
  size _ := 4
  encode t _ w := w.number (.u32 .little) t.value
  decode r := do
    let r ← r.prev 4
    let (value, r) ← r.number (.u32 .little)
    return (⟨value⟩, r)
  describe t := "seq " ++ toString t.value

end SimKernel
