import SimKernel.Random.Uniform
import SimKernel.Time.Basic

/-!
# The random generator

A stream of random words with the seed that it came from and the number of values asked of it. A value counts once,
however many words it takes. A range without numbers in it answers its lower end where a default is asked for, and then
nothing is drawn or counted.
-/

namespace SimKernel

/-- A stream of random words, its seed and the number of values drawn. -/
structure Rng where
  seed : UInt64
  calls : Nat
  stream : Random.WordStream
deriving DecidableEq

namespace Rng

open SimKernel.Random

/-- A fresh generator. -/
def ofSeed (seed : UInt64) : Rng :=
  ⟨seed, 0, WordStream.ofKey (keyOfSeed seed)⟩

instance : Inhabited Rng := ⟨ofSeed 0⟩

/-- The generator after one more value, with what is left of the stream. -/
def counted (g : Rng) (stream : WordStream) : Rng :=
  { g with calls := g.calls + 1, stream }

/-- Any number of a type. -/
def int (g : Rng) (kind : IntKind) : Int × Rng :=
  let (n, stream) := g.stream.draw kind.words
  (kind.ofDraw n, g.counted stream)

/-- A truth value: the highest bit of a word. -/
def bool (g : Rng) : Bool × Rng :=
  let (n, stream) := g.stream.draw 1
  (0x8000_0000 ≤ n, g.counted stream)

/-- A double from zero up to one. -/
def unit (g : Rng) : Binary64 × Rng :=
  let (x, stream) := drawUnit g.stream
  (x, g.counted stream)

/-- A number from `low` up to `high`, which is left out. -/
def intRange (g : Rng) (kind : IntKind) (low high : Int) : Except Fault (Int × Rng) :=
  (drawInt kind low high g.stream).map fun (n, stream) => (n, g.counted stream)

/-- A number from `low` up to `high`, or `low` if there is none. -/
def intRangeOrLow (g : Rng) (kind : IntKind) (low high : Int) : Except Fault (Int × Rng) :=
  if high ≤ low then .ok (low, g) else g.intRange kind low high

/-- A double from `low` up to `high`, which is left out. -/
def doubleRange (g : Rng) (low high : Binary64) : Except Fault (Binary64 × Rng) :=
  (drawDouble low high g.stream).map fun (x, stream) => (x, g.counted stream)

/-- A double from `low` up to `high`, or `low` if there is none. -/
def doubleRangeOrLow (g : Rng) (low high : Binary64) : Except Fault (Binary64 × Rng) :=
  if high.le low then .ok (low, g) else g.doubleRange low high

/-- A time from `low` up to `high`, or `low` if there is none. -/
def timeBetween (g : Rng) (low high : Time) : Except Fault (Time × Rng) := do
  let (n, g) ← g.intRangeOrLow .i128 low.femtos high.femtos
  return (← Time.ofFemtos n, g)

end Rng

end SimKernel
