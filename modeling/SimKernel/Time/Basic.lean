import SimKernel.Binary64.Basic
import SimKernel.Fault
import SimKernel.Time.Unit

/-!
# Time

An instant or a span of virtual time: a whole number of femtoseconds that fits into 128 bits with a sign. The bounds are
part of the type, so each operation has to say what happens at them. `add`, `sub`, `mul` and `div` fault, their
`checked` forms answer `none`, and the operations on doubles stop at the nearer bound.

The longest unit that divides a time evenly is its natural unit; zero is a number of days (`naturalUnit_dvd`).
-/

namespace SimKernel

/-- A signed number of femtoseconds of 128 bits. -/
structure Time where
  femtos : Int
  min_le : -0x8000_0000_0000_0000_0000_0000_0000_0000 ≤ femtos
  lt_bound : femtos < 0x8000_0000_0000_0000_0000_0000_0000_0000
deriving DecidableEq

namespace Time

/-- The least number of femtoseconds. -/
def least : Int := -0x8000_0000_0000_0000_0000_0000_0000_0000

/-- The greatest number of femtoseconds. -/
def greatest : Int := 0x7fff_ffff_ffff_ffff_ffff_ffff_ffff_ffff

/-- A time is told by its femtoseconds. -/
@[ext] theorem ext {a b : Time} (h : a.femtos = b.femtos) : a = b := by
  cases a; cases b; cases h; rfl

/-- The time of so many femtoseconds, if they fit. -/
def ofFemtos? (n : Int) : Option Time :=
  if h : -0x8000_0000_0000_0000_0000_0000_0000_0000 ≤ n ∧ n < 0x8000_0000_0000_0000_0000_0000_0000_0000 then some ⟨n, h.1, h.2⟩ else none

/-- The time of so many femtoseconds, or a fault if they do not fit. -/
def ofFemtos (n : Int) : Except Fault Time :=
  match ofFemtos? n with
  | some t => .ok t
  | none => .error .overflow

/-- The time nearest to so many femtoseconds. -/
def clamp (n : Int) : Time :=
  ⟨max least (min greatest n), by simp only [least, greatest]; omega, by simp only [least, greatest]; omega⟩

@[simp] theorem ofFemtos?_femtos (t : Time) : ofFemtos? t.femtos = some t := by
  exact dif_pos ⟨t.min_le, t.lt_bound⟩

/-- Femtoseconds are a time exactly if they are those of one. -/
theorem ofFemtos?_eq_some_iff {n : Int} {t : Time} : ofFemtos? n = some t ↔ t.femtos = n := by
  constructor
  · intro h
    simp only [ofFemtos?] at h
    split at h
    · cases h; rfl
    · cases h
  · rintro rfl
    exact ofFemtos?_femtos t

/-- The origin of virtual time. -/
protected def zero : Time := ⟨0, by decide, by decide⟩

/-- The last representable instant. -/
protected def max : Time := ⟨greatest, by decide, by decide⟩

/-- The first representable instant. -/
protected def min : Time := ⟨least, by decide, by decide⟩

instance : Inhabited Time := ⟨Time.zero⟩

instance : LT Time := ⟨fun a b => a.femtos < b.femtos⟩
instance : LE Time := ⟨fun a b => a.femtos ≤ b.femtos⟩
instance (a b : Time) : Decidable (a < b) := inferInstanceAs (Decidable (a.femtos < b.femtos))
instance (a b : Time) : Decidable (a ≤ b) := inferInstanceAs (Decidable (a.femtos ≤ b.femtos))
instance : Ord Time := ⟨fun a b => compare a.femtos b.femtos⟩

theorem lt_def {a b : Time} : a < b ↔ a.femtos < b.femtos := Iff.rfl
theorem le_def {a b : Time} : a ≤ b ↔ a.femtos ≤ b.femtos := Iff.rfl

def isZero (t : Time) : Bool := t.femtos == 0
def isNegative (t : Time) : Bool := t.femtos < 0
def isPositive (t : Time) : Bool := 0 < t.femtos

/-- `n` units of time. -/
def ofUnits (n : Int) (unit : TimeUnit) : Except Fault Time :=
  ofFemtos (n * unit.femtos)

/-! ## Arithmetic -/

def checkedAdd (a b : Time) : Option Time := ofFemtos? (a.femtos + b.femtos)
def checkedSub (a b : Time) : Option Time := ofFemtos? (a.femtos - b.femtos)
def checkedMul (a : Time) (n : Int) : Option Time := ofFemtos? (a.femtos * n)

def add (a b : Time) : Except Fault Time := ofFemtos (a.femtos + b.femtos)
def sub (a b : Time) : Except Fault Time := ofFemtos (a.femtos - b.femtos)
def mul (a : Time) (n : Int) : Except Fault Time := ofFemtos (a.femtos * n)
def neg (a : Time) : Except Fault Time := ofFemtos (-a.femtos)
def abs (a : Time) : Except Fault Time := ofFemtos a.femtos.natAbs

/-- The quotient, truncated toward zero. -/
def div (a : Time) (n : Int) : Except Fault Time :=
  if n = 0 then .error .divisionByZero else ofFemtos (a.femtos.tdiv n)

/-- How many times `b` goes into `a`, truncated toward zero; the number has 128 bits as well. -/
def ratio (a b : Time) : Except Fault Int :=
  (a.div b.femtos).map femtos

/-- The sum from left to right. -/
def sum (ts : List Time) : Except Fault Time :=
  ts.foldlM add Time.zero

/-! ## Whole units -/

/-- The number of whole units, truncated toward zero. -/
def inUnits (t : Time) (unit : TimeUnit) : Int :=
  t.femtos.tdiv unit.femtos

/-- Division towards zero leaves a multiple between zero and the number. -/
theorem bounds_of_tdiv_mul (n : Int) {k : Int} (h : 0 < k) :
    (0 ≤ n → 0 ≤ n.tdiv k * k ∧ n.tdiv k * k ≤ n) ∧ (n ≤ 0 → n ≤ n.tdiv k * k ∧ n.tdiv k * k ≤ 0) := by
  have hd := Int.tmod_add_mul_tdiv n k
  rw [Int.mul_comm k] at hd
  constructor
  · intro hn
    have := Int.tmod_nonneg k hn
    have := Int.mul_nonneg (Int.tdiv_nonneg hn (Int.le_of_lt h)) (Int.le_of_lt h)
    omega
  · intro hn
    have hd' := Int.tmod_add_mul_tdiv (-n) k
    rw [Int.neg_tdiv, Int.neg_tmod, Int.mul_comm k, Int.neg_mul] at hd'
    have h1 := Int.tmod_nonneg k (show 0 ≤ -n by omega)
    rw [Int.neg_tmod] at h1
    have h2 := Int.mul_nonneg (Int.tdiv_nonneg (show 0 ≤ -n by omega) (Int.le_of_lt h)) (Int.le_of_lt h)
    rw [Int.neg_tdiv, Int.neg_mul] at h2
    omega

/-- The whole units of the time, as a time. -/
def truncateTo (t : Time) (unit : TimeUnit) : Time :=
  have key := bounds_of_tdiv_mul t.femtos (Int.ofNat_lt.2 unit.femtos_pos)
  have low := t.min_le
  have high := t.lt_bound
  ⟨t.femtos.tdiv unit.femtos * unit.femtos, by omega, by omega⟩

/-- The longest unit that divides the time evenly. -/
def naturalUnit (t : Time) : TimeUnit :=
  (TimeUnit.all.find? fun unit => t.femtos.tmod unit.femtos = 0).getD .femtosecond

/-- A time is a whole number of its natural unit. -/
theorem naturalUnit_dvd (t : Time) : (t.naturalUnit.femtos : Int) ∣ t.femtos := by
  rw [naturalUnit]
  cases h : TimeUnit.all.find? fun unit => decide (t.femtos.tmod unit.femtos = 0) with
  | none => exact Int.one_dvd _
  | some unit =>
    have := List.find?_some h
    exact Int.dvd_of_tmod_eq_zero (by simpa using this)

/-! ## Doubles -/

/-- The double nearest to the femtoseconds of one second. -/
def secondAsDouble : Binary64 := Binary64.ofNat TimeUnit.second.femtos

/-- The whole number of femtoseconds nearest to a double, at the bound if it lies beyond. -/
def ofDouble (x : Binary64) : Time :=
  clamp (x.toIntClamped least greatest)

def ofSeconds (x : Binary64) : Time :=
  ofDouble (x.mul secondAsDouble)

def inSeconds (t : Time) : Binary64 :=
  (Binary64.ofInt t.femtos).div secondAsDouble

/-- The time multiplied by a double. -/
def scale (t : Time) (factor : Binary64) : Time :=
  ofDouble ((Binary64.ofInt t.femtos).mul factor)

end Time

end SimKernel
