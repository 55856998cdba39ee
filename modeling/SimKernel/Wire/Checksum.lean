import SimKernel.Bytes.Basic

/-!
# The internet checksum

The complement of the sum of the 16-bit words in network order, with the carries added back in. An odd last byte is
the high half of a word. Folding the carries in ends at a number of 16 bits (`foldCarries_le`).
-/

namespace SimKernel

/-- The sum of the words of a byte string. -/
def wordSum : Bytes → Nat
  | [] => 0
  | [b] => b.toNat * 256
  | a :: b :: rest => a.toNat * 256 + b.toNat + wordSum rest

/-- The sum with what exceeds 16 bits added to its low 16 bits, until nothing exceeds them. -/
def foldCarries (n : Nat) : Nat :=
  if 0xffff < n then foldCarries (n % 0x10000 + n / 0x10000) else n
termination_by n
decreasing_by omega

/-- What is left is one word. -/
theorem foldCarries_le (n : Nat) : foldCarries n ≤ 0xffff := by
  fun_induction foldCarries n with
  | case1 n h ih => exact ih
  | case2 n h => omega

/-- The checksum of a byte string, begun at `initial`. -/
def internetChecksum (bytes : Bytes) (initial : Nat) : Nat :=
  0xffff - foldCarries (initial + wordSum bytes)

end SimKernel
