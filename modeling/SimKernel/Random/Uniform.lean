import SimKernel.Binary64.Basic
import SimKernel.Random.ChaCha
import SimKernel.Fault

/-!
# Uniform numbers

Whole numbers and doubles drawn evenly from a range. A draw of `w` bits is multiplied by the width of the range: the high
half of the product is the offset into the range, and draws whose low half lies in the uneven rest are repeated. The
offset is always less than the width (`offset_lt`). Width and sum are computed on the type itself, where numbers that are
too great wrap around.
-/

namespace SimKernel.Random

/-- The types of whole numbers that can be drawn; a machine word has 64 bits. -/
inductive IntKind where
  | u8
  | i8
  | u16
  | i16
  | u32
  | i32
  | u64
  | i64
  | u128
  | i128
  | usize
  | isize
deriving DecidableEq, Repr

namespace IntKind

def all : List IntKind :=
  [u8, i8, u16, i16, u32, i32, u64, i64, u128, i128, usize, isize]

/-- The short name of the type: `u` for numbers from zero or `i` for signed ones, and the number of bits, or `size` for
those of a machine word. -/
def name : IntKind → String
  | u8 => "u8"
  | i8 => "i8"
  | u16 => "u16"
  | i16 => "i16"
  | u32 => "u32"
  | i32 => "i32"
  | u64 => "u64"
  | i64 => "i64"
  | u128 => "u128"
  | i128 => "i128"
  | usize => "usize"
  | isize => "isize"

def ofName? (name : String) : Option IntKind :=
  all.find? fun kind => kind.name == name

/-- The number of bits of the type. -/
def bits : IntKind → Nat
  | u8 | i8 => 8
  | u16 | i16 => 16
  | u32 | i32 => 32
  | u64 | i64 | usize | isize => 64
  | u128 | i128 => 128

def isSigned : IntKind → Bool
  | i8 | i16 | i32 | i64 | i128 | isize => true
  | u8 | u16 | u32 | u64 | u128 | usize => false

/-- The number of words of the stream in one draw. -/
def words (kind : IntKind) : Nat :=
  max 1 (kind.bits / 32)

/-- The number of different draws. -/
def draws (kind : IntKind) : Nat :=
  1 <<< (32 * kind.words)

/-- The number of the type that a draw stands for. -/
def ofDraw (kind : IntKind) (n : Nat) : Int :=
  let m := n % (1 <<< kind.bits)
  if kind.isSigned && 1 <<< (kind.bits - 1) ≤ m then (m : Int) - (1 <<< kind.bits : Nat) else m

/-- The bits of `n`, as many as the type has, read as a number without sign. -/
def unsigned (kind : IntKind) (n : Int) : Nat :=
  (n % (1 <<< kind.bits : Nat)).toNat

/-- The number of the type with the bits of `n`. -/
def wrap (kind : IntKind) (n : Int) : Int :=
  kind.ofDraw (kind.unsigned n)

/-- The width of a range: the difference of its ends, which may be too great for a number with sign. -/
def width (kind : IntKind) (low high : Int) : Nat :=
  kind.unsigned (kind.wrap (high - low))

/-- The greatest low half for which a draw counts, for a range of the given width. The small types use the exact bound,
the others the greatest multiple of the width that is a shift of it. -/
def lastEven (kind : IntKind) (width : Nat) : Nat :=
  if kind.bits ≤ 16 then kind.draws - 1 - (kind.draws - width) % width
  else width <<< (32 * kind.words - 1 - width.log2) - 1

end IntKind

/-- How often a draw is repeated at most. -/
def drawLimit : Nat := UInt32.size

/-- The place of a draw in a range of the given width. -/
def offset (kind : IntKind) (width draw : Nat) : Nat :=
  draw * width / kind.draws

/-- The place of a draw lies in the range. -/
theorem offset_lt {kind : IntKind} {width draw : Nat} (hw : 0 < width) (hd : draw < kind.draws) :
    offset kind width draw < width := by
  rw [offset, Nat.div_lt_iff_lt_mul (by rw [IntKind.draws, Nat.one_shiftLeft]; exact Nat.two_pow_pos _), Nat.mul_comm]
  exact (Nat.mul_lt_mul_left hw).2 hd

/-- An offset into a range of the given width, within `fuel` draws. -/
def drawOffset (kind : IntKind) (width : Nat) : Nat → WordStream → Except Fault (Nat × WordStream)
  | 0, _ => .error .exhausted
  | fuel + 1, s =>
    let (n, s) := s.draw kind.words
    if n * width % kind.draws ≤ kind.lastEven width then .ok (offset kind width n, s)
    else drawOffset kind width fuel s

/-- A number from `low` up to `high`, which is left out. -/
def drawInt (kind : IntKind) (low high : Int) (s : WordStream) : Except Fault (Int × WordStream) :=
  if low < high then
    (drawOffset kind (kind.width low high) drawLimit s).map fun (n, s) => (kind.wrap (low + kind.wrap n), s)
  else .error .emptyRange

/-! ## Doubles -/

/-- A double from zero up to one, with 53 random bits. -/
def drawUnit (s : WordStream) : Binary64 × WordStream :=
  let (n, s) := s.draw 2
  (Binary64.ofScaled false (n >>> 11) (-53), s)

/-- `low` plus a random part of `width`, drawn with 52 bits, within `fuel` draws until it is below `high`. -/
def drawScaled (low high width : Binary64) : Nat → WordStream → Except Fault (Binary64 × WordStream)
  | 0, _ => .error .exhausted
  | fuel + 1, s =>
    let (n, s) := s.draw 2
    let x := ((Binary64.ofScaled false (n >>> 12) (-52)).mul width).add low
    if x.lt high then .ok (x, s) else drawScaled low high width fuel s

/-- A double from `low` up to `high`, which is left out. -/
def drawDouble (low high : Binary64) (s : WordStream) : Except Fault (Binary64 × WordStream) :=
  let width := high.sub low
  if !low.lt high then .error .emptyRange
  else if !low.isFinite then .error .lowEndNotFinite
  else if !high.isFinite then .error .highEndNotFinite
  else if !width.isFinite then .error .widthNotFinite
  else drawScaled low high width drawLimit s

end SimKernel.Random
