import SimKernel.Rounding

/-!
# Double precision numbers

The binary interchange format of 64 bits: a sign, a significand of 53 bits and a power of two. A number is its bit
pattern; `value` says which rational it stands for. Every operation computes the exact result in whole numbers and
rounds it once, to the nearest number and to the even significand at a tie (`nearest`).

A finite number of exponent `e` is written `m * 2 ^ e`, so a rational enters `nearest` as a numerator and a
denominator and no division is ever inexact.
-/

namespace SimKernel

/-- A double precision number, given by its bits. -/
structure Binary64 where
  bits : UInt64
deriving DecidableEq, Repr

namespace Binary64

/-- What a bit pattern stands for; a finite number is `significand * 2 ^ exponent` up to its sign. -/
inductive Value where
  | nan
  | infinite (negative : Bool)
  | finite (negative : Bool) (significand : Nat) (exponent : Int)
deriving DecidableEq, Repr

/-- The exponent of the least positive number. -/
def minExponent : Int := -1074

/-- The bits after the exponent's. -/
def fractionSize : Nat := 1 <<< 52

/-- The exponent field that marks infinities and non-numbers. -/
def topField : Nat := 2047

/-- What the number stands for. -/
def value (x : Binary64) : Value :=
  let raw := x.bits.toNat
  let negative := decide (1 <<< 63 ≤ raw)
  let field := raw / fractionSize % 2048
  let fraction := raw % fractionSize
  if field = topField then
    if fraction = 0 then .infinite negative else .nan
  else if field = 0 then .finite negative fraction minExponent
  else .finite negative (fractionSize + fraction) (field - 1 + minExponent)

/-- The number of the given sign and magnitude bits. -/
def ofMagnitude (negative : Bool) (magnitude : Nat) : Binary64 :=
  ⟨UInt64.ofNat ((if negative then 1 <<< 63 else 0) + magnitude)⟩

/-- The pattern that stands for no number. -/
def nan : Binary64 := ⟨0x7ff8000000000000⟩

def infinite (negative : Bool) : Binary64 :=
  ofMagnitude negative (topField * fractionSize)

def zero (negative : Bool) : Binary64 :=
  ofMagnitude negative 0

/-- The whole part of the binary logarithm of `num / den`, for positive numbers. -/
def log2Quotient (num den : Nat) : Int :=
  let l : Int := num.log2 - den.log2
  if den <<< l.toNat ≤ num <<< (-l).toNat then l else l - 1

/-- The number nearest to `num / den`, of even significand at a tie. A significand that rounds up to the next power of
two carries into the exponent field, so the sum of both fields is right also then. -/
def nearest (negative : Bool) (num den : Nat) : Binary64 :=
  if num = 0 then zero negative
  else
    let exponent := max minExponent (log2Quotient num den - 52)
    let significand := Rounding.halfEven (num <<< (-exponent).toNat) (den <<< exponent.toNat)
    let magnitude := (exponent - minExponent).toNat * fractionSize + significand
    if topField * fractionSize ≤ magnitude then infinite negative else ofMagnitude negative magnitude

/-- The number nearest to `significand * 2 ^ exponent`. -/
def ofScaled (negative : Bool) (significand : Nat) (exponent : Int) : Binary64 :=
  nearest negative (significand <<< exponent.toNat) (1 <<< (-exponent).toNat)

def ofInt (n : Int) : Binary64 :=
  nearest (n < 0) n.natAbs 1

def ofNat (n : Nat) : Binary64 :=
  nearest false n 1

def isNaN (x : Binary64) : Bool :=
  x.value = .nan

def isFinite (x : Binary64) : Bool :=
  match x.value with
  | .finite .. => true
  | _ => false

/-- The number with its sign changed. -/
def neg (x : Binary64) : Binary64 :=
  ⟨x.bits ^^^ 0x8000000000000000⟩

def mul (x y : Binary64) : Binary64 :=
  match x.value, y.value with
  | .finite s m e, .finite t n f => ofScaled (s != t) (m * n) (e + f)
  | .infinite s, .infinite t => infinite (s != t)
  | .infinite s, .finite t n _ => if n = 0 then nan else infinite (s != t)
  | .finite s m _, .infinite t => if m = 0 then nan else infinite (s != t)
  | _, _ => nan

/-- `m` or `-m`. -/
def signed (negative : Bool) (m : Nat) : Int :=
  if negative then -m else m

/-- A sum of numbers that cancel is the positive zero; zeros of one sign keep it. -/
def add (x y : Binary64) : Binary64 :=
  match x.value, y.value with
  | .finite s m e, .finite t n f =>
    let exponent := min e f
    let sum := signed s (m <<< (e - exponent).toNat) + signed t (n <<< (f - exponent).toNat)
    if sum = 0 then zero (s && t) else ofScaled (sum < 0) sum.natAbs exponent
  | .infinite s, .infinite t => if s = t then infinite s else nan
  | .infinite s, .finite .. => infinite s
  | .finite .., .infinite t => infinite t
  | _, _ => nan

def sub (x y : Binary64) : Binary64 :=
  if y.isNaN then nan else add x y.neg

def div (x y : Binary64) : Binary64 :=
  match x.value, y.value with
  | .finite s m e, .finite t n f =>
    if n = 0 then if m = 0 then nan else infinite (s != t)
    else nearest (s != t) (m <<< (e - f).toNat) (n <<< (f - e).toNat)
  | .infinite s, .finite t _ _ => infinite (s != t)
  | .finite s _ _, .infinite t => zero (s != t)
  | _, _ => nan

/-- Strict order; a non-number is neither below nor above anything. -/
def lt (x y : Binary64) : Bool :=
  match x.value, y.value with
  | .finite s m e, .finite t n f =>
    let exponent := min e f
    signed s (m <<< (e - exponent).toNat) < signed t (n <<< (f - exponent).toNat)
  | .infinite s, .infinite t => s && !t
  | .infinite s, .finite .. => s
  | .finite .., .infinite t => !t
  | _, _ => false

/-- Equality as numbers: the two zeros are one, and a non-number differs from everything. -/
def eq (x y : Binary64) : Bool :=
  !x.isNaN && !y.isNaN && !x.lt y && !y.lt x

def le (x y : Binary64) : Bool :=
  x.lt y || x.eq y

/-- The nearest whole number, away from zero at a tie, kept between `low` and `high`; a non-number counts as zero. -/
def toIntClamped (x : Binary64) (low high : Int) : Int :=
  match x.value with
  | .nan => 0
  | .infinite negative => if negative then low else high
  | .finite negative m e =>
    let magnitude := Rounding.halfUp (m <<< e.toNat) (1 <<< (-e).toNat)
    max low (min high (signed negative magnitude))

end Binary64

end SimKernel
