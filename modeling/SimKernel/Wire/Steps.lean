import SimKernel.Wire.Codec

/-!
# Cursor steps

The single steps that a codec can make on a window, as values, and codecs that are given by a list of them. Such a codec
reads the list of what its steps find. A step that fails ends the codec with its error, unless it is marked as one that
may fail; then its error is what it finds, and the cursor stays.
-/

namespace SimKernel

/-- A step of a reader. -/
inductive ReadStep where
  | number (field : NumberField)
  | bytes (n : Nat)
  | skip (n : Nat)
  | prev (n : Nat)
  | checksum (n initial : Nat)
  /-- The checksum of the next bytes, which are not passed. -/
  | peekChecksum (n initial : Nat)
  | fail (e : PacketError)
  /-- A step that may fail. -/
  | attempt (step : ReadStep)

/-- What a step of a reader finds. -/
inductive ReadResult where
  | none
  | number (field : NumberField) (n : Nat)
  | bytes (b : Bytes)
  | checksum (n : Nat)
  | failed (e : PacketError)

/-- A step of a writer. -/
inductive WriteStep where
  | number (field : NumberField) (n : Nat)
  | bytes (b : Bytes)
  | repeated (byte : UInt8) (n : Nat)
  | skip (n : Nat)
  | prev (n : Nat)
  /-- The checksum of the whole window, as a number of two bytes. -/
  | checksum (initial : Nat)
  /-- A look at the window, which changes nothing. -/
  | look
  | fail (e : PacketError)

namespace ReadStep

/-- What the step finds, and the reader after it. -/
def run {window : Bytes} (r : Reader window) : ReadStep → Except PacketError (ReadResult × Reader window)
  | number field => (r.number field).map fun (n, r) => (.number field n, r)
  | bytes n => (r.take n).map fun (b, r) => (.bytes b, r)
  | skip n => (r.skip n).map fun r => (.none, r)
  | prev n => (r.prev n).map fun r => (.none, r)
  | checksum n initial => (r.checksum n initial).map fun (c, r) => (.checksum c, r)
  | peekChecksum n initial => (r.checksum n initial).map fun (c, _) => (.checksum c, r)
  | fail e => .error e
  | attempt step =>
    match step.run r with
    | .ok found => .ok found
    | .error e => .ok (.failed e, r)

/-- What the steps find one after the other, and the reader after them. -/
def runAll {window : Bytes} : List ReadStep → Reader window → Except PacketError (List ReadResult × Reader window)
  | [], r => .ok ([], r)
  | step :: steps, r => do
    let (result, r) ← step.run r
    let (results, r) ← runAll steps r
    return (result :: results, r)

end ReadStep

namespace WriteStep

/-- The writer after the step. -/
def run {size : Nat} (w : Writer size) : WriteStep → Except PacketError (Writer size)
  | number field n => w.number field n
  | bytes b => w.bytes b
  | repeated byte n => w.repeated byte n
  | skip n => w.skip n
  | prev n => w.prev n
  | checksum initial => w.number (.u16 .big) (internetChecksum w.window initial)
  | look => .ok w
  | fail e => .error e

/-- The writer after the steps, one after the other. -/
def runAll {size : Nat} (steps : List WriteStep) (w : Writer size) : Except PacketError (Writer size) :=
  steps.foldlM run w

end WriteStep

/-- What a codec of cursor steps reads, with the size that it reports. -/
structure Readings where
  size : Nat
  results : List ReadResult

/-- The codec that makes the given steps and reports the given size when it reads. -/
def Codec.ofSteps (name : String) (size : Nat) (write : List WriteStep) (read : List ReadStep) : Codec Readings where
  name
  size v := v.size
  encode _ _ w := WriteStep.runAll write w
  decode r := (ReadStep.runAll read r).map fun (results, r) => (⟨size, results⟩, r)

end SimKernel
