import SimKernel.Packet.Error
import SimKernel.Wire.Checksum
import SimKernel.Wire.Number

/-!
# Reading a window

A cursor over a window of bytes that moves in both directions and remembers the least and the greatest position it had.
A header is read from the start of the window, so it is as long as the greatest position; a trailer is read from the
end, so it is as long as what lies after the least position. The positions never leave the window, which is part of
the type; a reader that cannot move answers an error and stays where it is.
-/

namespace SimKernel

/-- A cursor over `window`, with the least and greatest position it had. -/
structure Reader (window : Bytes) where
  position : Nat
  low : Nat
  high : Nat
  low_le : low ≤ position
  le_high : position ≤ high
  high_le : high ≤ window.length

namespace Reader

variable {window : Bytes}

/-- A reader that begins at a position. -/
def ofPosition (n : Nat) (h : n ≤ window.length) : Reader window :=
  ⟨n, n, n, Nat.le_refl n, Nat.le_refl n, h⟩

/-- A reader at the start of the window. -/
def atStart (window : Bytes) : Reader window :=
  ofPosition 0 (Nat.zero_le _)

/-- A reader at the end of the window. -/
def atEnd (window : Bytes) : Reader window :=
  ofPosition window.length (Nat.le_refl _)

/-- The number of bytes after the cursor. -/
def remaining (r : Reader window) : Nat :=
  window.length - r.position

/-- The number of bytes before the greatest position. -/
def consumedFromStart (r : Reader window) : Nat := r.high

/-- The number of bytes after the least position. -/
def consumedFromEnd (r : Reader window) : Nat :=
  window.length - r.low

/-- Moves back by `n` bytes. -/
def prev (r : Reader window) (n : Nat) : Except PacketError (Reader window) :=
  if n ≤ r.position then
    .ok ⟨r.position - n, min r.low (r.position - n), r.high, by omega, by have := r.le_high; omega, r.high_le⟩
  else .error (.truncated n r.position)

/-- The next `n` bytes. -/
def take (r : Reader window) (n : Nat) : Except PacketError (Bytes × Reader window) :=
  if h : n ≤ r.remaining then
    .ok ((window.drop r.position).take n,
      ⟨r.position + n, r.low, max r.high (r.position + n), by have := r.low_le; omega, by omega,
        by have := r.high_le; have := r.le_high; simp only [remaining] at h; omega⟩)
  else .error (.truncated n r.remaining)

/-- Moves on by `n` bytes. -/
def skip (r : Reader window) (n : Nat) : Except PacketError (Reader window) :=
  (r.take n).map Prod.snd

/-- The number in the next field. -/
def number (r : Reader window) (field : NumberField) : Except PacketError (Nat × Reader window) :=
  (r.take field.width).map fun (bytes, r) => (field.decode bytes, r)

/-- The checksum of the next `n` bytes. -/
def checksum (r : Reader window) (n initial : Nat) : Except PacketError (Nat × Reader window) :=
  (r.take n).map fun (bytes, r) => (internetChecksum bytes initial, r)

end Reader

end SimKernel
