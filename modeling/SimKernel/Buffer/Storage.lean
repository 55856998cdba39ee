import SimKernel.Bytes.Basic

/-!
# Storages

A run of bytes that several buffers may look at. Its used range is the part that some buffer has looked at: what lies
outside belongs to nobody and can be given away without a copy.
-/

namespace SimKernel

/-- Bytes and the range of them that was ever given away. -/
structure Storage where
  bytes : Bytes
  usedStart : Nat
  usedStop : Nat
deriving DecidableEq, Repr

namespace Storage

/-- A storage of which exactly `data` is used, with so many zero bytes before and after it. -/
def layout (before : Nat) (data : Bytes) (after : Nat) : Storage :=
  ⟨Bytes.zeros before ++ data ++ Bytes.zeros after, before, before + data.length⟩

/-- The bytes from `start` up to `stop`. -/
def slice (s : Storage) (start stop : Nat) : Bytes :=
  (s.bytes.drop start).take (stop - start)

/-- The storage with `data` in place of what it holds from position `start`. -/
def write (s : Storage) (start : Nat) (data : Bytes) : Storage :=
  { s with bytes := s.bytes.overlay start data }

/-- The used range of a new storage holds the bytes that it was laid out for. -/
theorem slice_layout (before : Nat) (data : Bytes) (after : Nat) :
    (layout before data after).slice (layout before data after).usedStart (layout before data after).usedStop = data := by
  simp [layout, slice, Bytes.zeros]

end Storage

end SimKernel
