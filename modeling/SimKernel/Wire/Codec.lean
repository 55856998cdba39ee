import SimKernel.Wire.Reader
import SimKernel.Wire.Writer

/-!
# Codecs

How the values of a type are written into a window and read back. The same form serves for headers, which are read from
the start of a packet, and for trailers, which are read from its end: only the position where the reader begins differs.
Nothing is assumed about a codec; a packet checks that it processes as many bytes as it reports.
-/

namespace SimKernel

/-- The written form of the values of a type. -/
structure Codec (β : Type) where
  /-- The name of the format, as errors show it. -/
  name : String
  /-- The number of bytes of a value. -/
  size : β → Nat
  /-- Writes a value into a window of zeros of its size. -/
  encode : β → {n : Nat} → Writer n → Except PacketError (Writer n)
  /-- Reads a value. -/
  decode : {window : Bytes} → Reader window → Except PacketError (β × Reader window)
  /-- A value as text. -/
  describe : β → String := fun _ => name

namespace Codec

variable {β : Type}

/-- An error unless as many bytes were processed as reported. -/
def checkSize (c : Codec β) (reported actual : Nat) : Except PacketError Unit :=
  if reported = actual then .ok () else .error (.sizeMismatch c.name reported actual)

/-- The window filled with a value. -/
def fill (c : Codec β) (value : β) (window : Bytes) : Except PacketError Bytes := do
  let w ← c.encode value (Writer.ofWindow window)
  c.checkSize window.length w.written
  return w.window

/-- The value at the start of the bytes, and its number of bytes. -/
def readStart (c : Codec β) (bytes : Bytes) : Except PacketError (β × Nat) := do
  let (value, r) ← c.decode (Reader.atStart bytes)
  c.checkSize (c.size value) r.consumedFromStart
  return (value, r.consumedFromStart)

/-- The value at the end of the bytes, and its number of bytes. -/
def readEnd (c : Codec β) (bytes : Bytes) : Except PacketError (β × Nat) := do
  let (value, r) ← c.decode (Reader.atEnd bytes)
  c.checkSize (c.size value) r.consumedFromEnd
  return (value, r.consumedFromEnd)

end Codec

end SimKernel
