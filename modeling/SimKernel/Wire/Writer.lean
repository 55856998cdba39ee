import SimKernel.Packet.Error
import SimKernel.Wire.Number

/-!
# Writing a window

A cursor that fills a window of fixed size and remembers the greatest position it had. The size of the window and the
bounds of the cursor are part of the type; a writer that cannot move answers an error and stays as it is.
-/

namespace SimKernel

/-- A cursor over a window of `size` bytes, with the greatest position it had. -/
structure Writer (size : Nat) where
  window : Bytes
  position : Nat
  written : Nat
  length_window : window.length = size
  le_written : position ≤ written
  written_le : written ≤ size

namespace Writer

variable {size : Nat}

/-- A writer at the start of a window of known size. -/
def start (window : Bytes) (h : window.length = size) : Writer size :=
  ⟨window, 0, 0, h, Nat.le_refl 0, Nat.zero_le size⟩

/-- A writer at the start of a window. -/
def ofWindow (window : Bytes) : Writer window.length :=
  start window rfl

/-- The number of bytes after the cursor. -/
def remaining (w : Writer size) : Nat :=
  size - w.position

/-- Moves back by `n` bytes. -/
def prev (w : Writer size) (n : Nat) : Except PacketError (Writer size) :=
  if n ≤ w.position then
    .ok { w with position := w.position - n, le_written := by have := w.le_written; omega }
  else .error (.truncated n w.position)

/-- Moves on by `n` bytes and leaves them as they are. -/
def skip (w : Writer size) (n : Nat) : Except PacketError (Writer size) :=
  if h : n ≤ w.remaining then
    .ok { w with
      position := w.position + n
      written := max w.written (w.position + n)
      le_written := by omega
      written_le := by have := w.written_le; have := w.le_written; simp only [remaining] at h; omega }
  else .error (.truncated n w.remaining)

/-- Writes bytes at the cursor. -/
def bytes (w : Writer size) (data : Bytes) : Except PacketError (Writer size) :=
  if h : data.length ≤ w.remaining then
    .ok {
      window := w.window.overlay w.position data
      position := w.position + data.length
      written := max w.written (w.position + data.length)
      length_window := by
        have := w.length_window; have := w.written_le; have := w.le_written
        simp only [remaining] at h
        rw [Bytes.length_overlay (by omega), w.length_window]
      le_written := by omega
      written_le := by have := w.written_le; have := w.le_written; simp only [remaining] at h; omega }
  else .error (.truncated data.length w.remaining)

/-- Writes one byte `n` times. -/
def repeated (w : Writer size) (byte : UInt8) (n : Nat) : Except PacketError (Writer size) :=
  if n ≤ w.remaining then w.bytes (List.replicate n byte) else .error (.truncated n w.remaining)

/-- Writes a number field. -/
def number (w : Writer size) (field : NumberField) (n : Nat) : Except PacketError (Writer size) :=
  w.bytes (field.encode n)

end Writer

end SimKernel
