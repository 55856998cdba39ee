import SimKernel.Fault

/-!
# Bytes

Byte strings, and the numbers that they stand for in either byte order. Writing a number and reading it back gives the
number modulo the size of the field (`ByteOrder.decode_encode`), and reading a field and writing it back gives its bytes
(`ByteOrder.encode_decode`).

Lengths are numbers of 64 bits, and no byte string is longer than half of them count (`Bytes.checkLength`).
-/

namespace SimKernel

abbrev Bytes := List UInt8

/-- The string with `data` in place of what it holds from position `start`. -/
def Bytes.overlay (bytes : Bytes) (start : Nat) (data : Bytes) : Bytes :=
  bytes.take start ++ data ++ bytes.drop (start + data.length)

/-- Bytes that fit in replace as many. -/
theorem Bytes.length_overlay {bytes data : Bytes} {start : Nat} (h : start + data.length ≤ bytes.length) :
    (bytes.overlay start data).length = bytes.length := by
  simp only [overlay, List.length_append, List.length_take, List.length_drop]
  omega

/-- `n` zero bytes. -/
def Bytes.zeros (n : Nat) : Bytes := List.replicate n 0

/-- A fault if `n` is no length, or no byte string can be so long. -/
def Bytes.checkLength (n : Nat) : Except Fault Unit :=
  if n < UInt64.size / 2 then .ok ()
  else if n < UInt64.size then .error .tooManyBytes
  else .error .overflow

/-- A byte string is shorter than half of the address space. -/
theorem Bytes.checkLength_eq_ok_iff {n : Nat} : checkLength n = .ok () ↔ n < UInt64.size / 2 := by
  unfold checkLength
  split
  · simp_all
  · split <;> simp_all

/-- Which end of a number comes first. -/
inductive ByteOrder where
  | big
  | little
deriving DecidableEq, Repr

namespace ByteOrder

/-- The number with the given bytes, the least significant one first. -/
def littleToNat : Bytes → Nat
  | [] => 0
  | b :: bs => b.toNat + 256 * littleToNat bs

/-- The `width` lowest bytes of a number, the least significant one first. -/
def littleOfNat : Nat → Nat → Bytes
  | 0, _ => []
  | width + 1, n => UInt8.ofNat n :: littleOfNat width (n / 256)

def decode : ByteOrder → Bytes → Nat
  | big, bs => littleToNat bs.reverse
  | little, bs => littleToNat bs

def encode : ByteOrder → (width n : Nat) → Bytes
  | big, width, n => (littleOfNat width n).reverse
  | little, width, n => littleOfNat width n

theorem length_littleOfNat (width n : Nat) : (littleOfNat width n).length = width := by
  induction width generalizing n with
  | zero => rfl
  | succ width ih => simp [littleOfNat, ih]

@[simp] theorem length_encode (order : ByteOrder) (width n : Nat) : (order.encode width n).length = width := by
  cases order <;> simp [encode, length_littleOfNat]

/-- Bytes that a number does not fit into keep its lowest ones. -/
theorem littleToNat_littleOfNat (width n : Nat) : littleToNat (littleOfNat width n) = n % (1 <<< (8 * width)) := by
  induction width generalizing n with
  | zero => simp [littleOfNat, littleToNat, Nat.mod_one]
  | succ width ih =>
    have h : 1 <<< (8 * (width + 1)) = 256 * 1 <<< (8 * width) := by
      rw [Nat.mul_succ, Nat.shiftLeft_add, Nat.shiftLeft_eq _ 8, Nat.mul_comm]
    rw [littleOfNat, littleToNat, ih, h, Nat.mod_mul, UInt8.toNat_ofNat']

theorem littleOfNat_littleToNat (bs : Bytes) : littleOfNat bs.length (littleToNat bs) = bs := by
  induction bs with
  | nil => rfl
  | cons b bs ih =>
    have hb := b.toNat_lt
    rw [List.length_cons, littleOfNat, littleToNat, show (b.toNat + 256 * littleToNat bs) / 256 = littleToNat bs by omega,
      ih]
    congr 1
    apply UInt8.toNat_inj.1
    rw [UInt8.toNat_ofNat']
    omega

/-- A number is read back from its bytes, up to the size of the field. -/
theorem decode_encode (order : ByteOrder) (width n : Nat) : order.decode (order.encode width n) = n % (1 <<< (8 * width)) := by
  cases order <;> simp [decode, encode, littleToNat_littleOfNat]

/-- Bytes are written back from the number that they stand for. -/
theorem encode_decode (order : ByteOrder) (bs : Bytes) : order.encode bs.length (order.decode bs) = bs := by
  cases order with
  | little => exact littleOfNat_littleToNat bs
  | big =>
    have h := littleOfNat_littleToNat bs.reverse
    rw [List.length_reverse] at h
    simp [decode, encode, h]

end ByteOrder

end SimKernel
