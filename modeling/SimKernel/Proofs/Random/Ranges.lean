import Mathlib.Algebra.Ring.Nat
import Mathlib.Data.Nat.Find
import SimKernel.Proofs.Outcome
import SimKernel.Random.Generator

/-!
# Numbers drawn from a range

Arithmetic on a type of whole numbers wraps around, so the width of a range and the number at an offset into it are right
up to multiples of the size of the type (`IntKind.wrap_emod`). As the width fits if it is read without sign, and the number
lies in the range, both are exact (`IntKind.width_eq`, `IntKind.wrap_add_offset`), also where the width is too great for a
number with sign.

The loop of draws ends with the first draw that counts (`drawOffset_of_first`). So a number that was drawn lies in the range
(`bounds_of_drawInt`), and a generator answers with such a number, or with the lower end of an empty range
(`Rng.answers_from_ranges`).
-/

namespace SimKernel.Random

/-! ## Arithmetic on a type -/

namespace IntKind

variable {kind : IntKind} {low high n : Int}

/-- The number of values of the type. -/
def size (kind : IntKind) : Nat := 1 <<< kind.bits

/-- The least number of the type. -/
def least (kind : IntKind) : Int := if kind.isSigned then -(1 <<< (kind.bits - 1) : Nat) else 0

/-- The number is one of the type. -/
def Holds (kind : IntKind) (n : Int) : Prop := kind.least ≤ n ∧ n < kind.least + kind.size

instance (kind : IntKind) (n : Int) : Decidable (kind.Holds n) := inferInstanceAs (Decidable (_ ∧ _))

/-- The numbers of a type without sign. -/
theorem holds_iff_of_not_signed (h : kind.isSigned = false) : kind.Holds n ↔ 0 ≤ n ∧ n < kind.size := by
  have hleast : kind.least = 0 := by
    rw [least, h]
    rfl
  rw [Holds, hleast, Int.zero_add]

theorem size_pos (kind : IntKind) : (0 : Int) < kind.size := by
  rw [size, Nat.one_shiftLeft]
  exact_mod_cast Nat.two_pow_pos _

/-- Numbers of the type are told apart by their bits. -/
theorem Holds.eq_of_emod_eq {a b : Int} (ha : kind.Holds a) (hb : kind.Holds b) (h : a % kind.size = b % kind.size) :
    a = b := by
  have hdvd : (kind.size : Int) ∣ a - b := Int.dvd_of_emod_eq_zero (Int.emod_eq_emod_iff_emod_sub_eq_zero.1 h)
  have hnear : (a - b).natAbs < (kind.size : Int).natAbs := by
    have := ha.1
    have := ha.2
    have := hb.1
    have := hb.2
    omega
  have := Int.eq_zero_of_dvd_of_natAbs_lt_natAbs hdvd hnear
  omega

/-- The bits of a number without sign are those of its residue. -/
theorem natCast_unsigned (kind : IntKind) (n : Int) : (kind.unsigned n : Int) = n % kind.size :=
  Int.toNat_of_nonneg (Int.emod_nonneg n (Int.ne_of_gt kind.size_pos))

theorem unsigned_congr {a b : Int} (h : a % kind.size = b % kind.size) : kind.unsigned a = kind.unsigned b :=
  congrArg Int.toNat h

/-- A number that is wrapped around is its residue or, if that is too great for a number with sign, less by the size. -/
theorem wrap_eq (kind : IntKind) (n : Int) :
    kind.wrap n = if kind.isSigned && 1 <<< (kind.bits - 1) ≤ kind.unsigned n then n % kind.size - kind.size
      else n % kind.size := by
  have hbits : kind.unsigned n % (1 <<< kind.bits) = kind.unsigned n := by
    have := natCast_unsigned kind n
    have := Int.emod_lt_of_pos n kind.size_pos
    exact Nat.mod_eq_of_lt (show kind.unsigned n < kind.size by omega)
  rw [wrap, ofDraw, hbits, ← natCast_unsigned]
  rfl

/-- Wrapping around changes a number by a multiple of the size. -/
theorem wrap_emod (kind : IntKind) (n : Int) : kind.wrap n % kind.size = n % kind.size := by
  rw [wrap_eq]
  split
  · rw [Int.sub_emod_right, Int.emod_emod]
  · rw [Int.emod_emod]

/-- What is wrapped around is a number of the type. -/
theorem holds_wrap (kind : IntKind) (n : Int) : kind.Holds (kind.wrap n) := by
  have hhalf : kind.size = 2 * (1 <<< (kind.bits - 1)) := by cases kind <;> rfl
  have hbits := natCast_unsigned kind n
  have hnonneg := Int.emod_nonneg n (Int.ne_of_gt kind.size_pos)
  have hlt := Int.emod_lt_of_pos n kind.size_pos
  rw [wrap_eq, Holds, least]
  cases kind.isSigned
  · exact ⟨by simpa using hnonneg, by simpa using hlt⟩
  · simp only [Bool.true_and, decide_eq_true_eq, if_true]
    split <;> constructor <;> omega

theorem unsigned_wrap (kind : IntKind) (n : Int) : kind.unsigned (kind.wrap n) = kind.unsigned n :=
  unsigned_congr (kind.wrap_emod n)

/-- A number that is wrapped around before it is added may be so afterwards. -/
theorem wrap_add_wrap (kind : IntKind) (a b : Int) : kind.wrap (a + kind.wrap b) = kind.wrap (a + b) := by
  have hsum : (a + kind.wrap b) % kind.size = (a + b) % kind.size := by
    rw [Int.add_emod, wrap_emod, ← Int.add_emod]
  exact congrArg kind.ofDraw (unsigned_congr hsum)

/-- Numbers of the type stay as they are. -/
theorem wrap_of_holds (h : kind.Holds n) : kind.wrap n = n :=
  (kind.holds_wrap n).eq_of_emod_eq h (kind.wrap_emod n)

/-- A range is as wide as its ends are apart. -/
theorem width_eq (hlow : kind.Holds low) (hhigh : kind.Holds high) (hlt : low < high) :
    kind.width low high = (high - low).toNat := by
  have hspan : high - low < kind.size := by
    have := hlow.1
    have := hhigh.2
    omega
  rw [width, unsigned_wrap, unsigned]
  exact congrArg Int.toNat (Int.emod_eq_of_lt (by omega) hspan)

/-- The number at an offset into a range. -/
theorem wrap_add_offset (hlow : kind.Holds low) (hhigh : kind.Holds high) {k : Nat} (hk : k < (high - low).toNat) :
    kind.wrap (low + kind.wrap k) = low + k := by
  rw [wrap_add_wrap]
  have := hlow.1
  have := hhigh.2
  exact wrap_of_holds ⟨by omega, by omega⟩

end IntKind

/-! ## Draws -/

variable {kind : IntKind} {width fuel k n : Nat} {s s' : WordStream}

-- Equations by definition; those that Lean would generate unfold the cipher.
theorem draw_zero (s : WordStream) : s.draw 0 = (0, s) := rfl

theorem draw_succ (n : Nat) (s : WordStream) :
    s.draw (n + 1) = (s.next.1.toNat + (s.next.2.draw n).1 <<< 32, (s.next.2.draw n).2) := rfl

theorem draw_lt (n : Nat) (s : WordStream) : (s.draw n).1 < 2 ^ (32 * n) := by
  induction n generalizing s with
  | zero =>
    rw [draw_zero]
    exact Nat.two_pow_pos _
  | succ n ih =>
    have hlow : s.next.1.toNat < 2 ^ 32 := s.next.1.toNat_lt
    have hhigh := ih s.next.2
    have hpow : 2 ^ (32 * (n + 1)) = 2 ^ (32 * n) * 2 ^ 32 := by rw [← Nat.pow_add, Nat.mul_add_one]
    rw [draw_succ, Nat.shiftLeft_eq, hpow]
    omega

theorem draw_lt_draws (kind : IntKind) (s : WordStream) : (s.draw kind.words).1 < kind.draws := by
  rw [IntKind.draws, Nat.one_shiftLeft]
  exact draw_lt kind.words s

/-- What is left of the stream after so many draws. -/
def leftAfter (kind : IntKind) : Nat → WordStream → WordStream
  | 0, s => s
  | k + 1, s => leftAfter kind k (s.draw kind.words).2

/-- One of the draws from a stream, which are counted from zero. -/
def drawAt (kind : IntKind) (s : WordStream) (k : Nat) : Nat := ((leftAfter kind k s).draw kind.words).1

/-- The draw counts for a range of the width. -/
def Counts (kind : IntKind) (width draw : Nat) : Prop := draw * width % kind.draws ≤ kind.lastEven width

instance (kind : IntKind) (width draw : Nat) : Decidable (Counts kind width draw) := inferInstanceAs (Decidable (_ ≤ _))

/-- The first of the draws from a stream that counts. -/
structure FirstToCount (kind : IntKind) (width : Nat) (s : WordStream) (k : Nat) : Prop where
  counts : Counts kind width (drawAt kind s k)
  first : ∀ j < k, ¬ Counts kind width (drawAt kind s j)

theorem firstToCount_zero (h : Counts kind width (s.draw kind.words).1) : FirstToCount kind width s 0 :=
  ⟨h, fun _ hj => absurd hj (Nat.not_lt_zero _)⟩

/-- With the first draw that counts the loop ends; by induction on the draws that do not. -/
theorem drawOffset_of_first (h : FirstToCount kind width s k) (hk : k < fuel) :
    drawOffset kind width fuel s = .ok (offset kind width (drawAt kind s k), leftAfter kind (k + 1) s) := by
  induction k generalizing s fuel with
  | zero =>
    obtain ⟨fuel, rfl⟩ := Nat.exists_eq_succ_of_ne_zero (Nat.ne_of_gt hk)
    exact if_pos h.counts
  | succ k ih =>
    obtain ⟨fuel, rfl⟩ := Nat.exists_eq_succ_of_ne_zero (Nat.ne_of_gt (Nat.zero_lt_of_lt hk))
    have hskip : drawOffset kind width (fuel + 1) s = drawOffset kind width fuel (s.draw kind.words).2 :=
      if_neg (h.first 0 (Nat.succ_pos k))
    rw [hskip]
    exact ih ⟨h.counts, fun j hj => h.first (j + 1) (Nat.succ_lt_succ hj)⟩ (Nat.lt_of_succ_lt_succ hk)

theorem drawOffset_of_none (h : ∀ k < fuel, ¬ Counts kind width (drawAt kind s k)) :
    drawOffset kind width fuel s = .error .exhausted := by
  induction fuel generalizing s with
  | zero => rfl
  | succ fuel ih =>
    have hskip : drawOffset kind width (fuel + 1) s = drawOffset kind width fuel (s.draw kind.words).2 :=
      if_neg (h 0 (Nat.succ_pos fuel))
    rw [hskip]
    exact ih fun k hk => h (k + 1) (Nat.succ_lt_succ hk)

theorem exists_first (h : Counts kind width (drawAt kind s k)) : ∃ j ≤ k, FirstToCount kind width s j := by
  have hsome : ∃ k, Counts kind width (drawAt kind s k) := ⟨k, h⟩
  exact ⟨Nat.find hsome, Nat.find_min' hsome h, Nat.find_spec hsome, fun j hj => Nat.find_min hsome hj⟩

/-- The loop ends in no other way. -/
theorem exists_first_of_drawOffset (h : drawOffset kind width fuel s = .ok (n, s')) :
    ∃ k < fuel, FirstToCount kind width s k := by
  by_contra hnone
  have hcount : ∀ k < fuel, ¬ Counts kind width (drawAt kind s k) := by
    intro k hk hc
    obtain ⟨j, hj, hfirst⟩ := exists_first hc
    exact hnone ⟨j, by omega, hfirst⟩
  rw [drawOffset_of_none hcount] at h
  cases h

/-! ## Numbers of a range -/

/-- The number of a range that a draw stands for. -/
def numberAt (kind : IntKind) (low high : Int) (draw : Nat) : Int :=
  kind.wrap (low + kind.wrap (offset kind (kind.width low high) draw))

section Ranges

variable {low high m : Int}

theorem drawInt_of_first (hlt : low < high) (h : FirstToCount kind (kind.width low high) s k) (hk : k < drawLimit) :
    drawInt kind low high s = .ok (numberAt kind low high (drawAt kind s k), leftAfter kind (k + 1) s) := by
  rw [drawInt, if_pos hlt, drawOffset_of_first h hk]
  rfl

theorem drawInt_of_none (hlt : low < high) (h : ∀ k < drawLimit, ¬ Counts kind (kind.width low high) (drawAt kind s k)) :
    drawInt kind low high s = .error .exhausted := by
  rw [drawInt, if_pos hlt, drawOffset_of_none h]
  rfl

variable (hlow : kind.Holds low) (hhigh : kind.Holds high)

include hlow hhigh

/-- The number lies at the offset into the range, and that is less than the range is wide. -/
theorem bounds_of_numberAt (hlt : low < high) (s : WordStream) (k : Nat) :
    low ≤ numberAt kind low high (drawAt kind s k) ∧ numberAt kind low high (drawAt kind s k) < high := by
  have hoffset : offset kind (high - low).toNat (drawAt kind s k) < (high - low).toNat :=
    offset_lt (by omega) (draw_lt_draws kind _)
  rw [numberAt, IntKind.width_eq hlow hhigh hlt, IntKind.wrap_add_offset hlow hhigh hoffset]
  omega

/-- A whole number drawn from a range lies in it. -/
theorem bounds_of_drawInt (h : drawInt kind low high s = .ok (m, s')) : low ≤ m ∧ m < high := by
  have hlt : low < high := by
    by_contra hge
    rw [drawInt, if_neg hge] at h
    cases h
  obtain ⟨k, hk, hfirst⟩ : ∃ k < drawLimit, FirstToCount kind (kind.width low high) s k := by
    rw [drawInt, if_pos hlt] at h
    obtain ⟨⟨n, s₁⟩, hn, -⟩ := Outcome.map_eq_ok_iff.1 h
    exact exists_first_of_drawOffset hn
  rw [drawInt_of_first hlt hfirst hk] at h
  obtain ⟨rfl, -⟩ := Prod.mk.inj (Except.ok.inj h)
  exact bounds_of_numberAt hlow hhigh hlt s k

end Ranges

end SimKernel.Random

/-! ## Generators -/

namespace SimKernel.Rng

open SimKernel.Random

variable {α : Type} {value : α → Int} {kind : IntKind} {low high : α} {g : Rng} {x : Except Fault (α × Rng)}

/-- What becomes of asking a generator for something from `low` up to `high`, for which a number of the type is drawn. -/
structure AnswersFrom (value : α → Int) (kind : IntKind) (low high : α) (g : Rng) (x : Except Fault (α × Rng)) : Prop where
  /-- An answer lies in the range, and counts once. -/
  bounds : value low < value high → ∀ a g', x = .ok (a, g') →
    value low ≤ value a ∧ value a < value high ∧ g'.seed = g.seed ∧ g'.calls = g.calls + 1
  /-- However many draws it takes, the first one that counts stands for something in the range; within the limit on draws
  that is the answer. -/
  ends : value low < value high → ∀ k, FirstToCount kind (kind.width (value low) (value high)) g.stream k →
    ∃ a, value a = numberAt kind (value low) (value high) (drawAt kind g.stream k) ∧
      value low ≤ value a ∧ value a < value high ∧
      (k < drawLimit → x = .ok (a, ⟨g.seed, g.calls + 1, leftAfter kind (k + 1) g.stream⟩))
  /-- There is no answer only if no draw within the limit counts. -/
  exhausted : value low < value high →
    (∀ k < drawLimit, ¬ Counts kind (kind.width (value low) (value high)) (drawAt kind g.stream k)) →
    x = .error .exhausted
  /-- For an empty range nothing is drawn or counted. -/
  empty : ¬ value low < value high → x = .ok (low, g)

/-- A generator that takes for its answer the number that is drawn. -/
theorem answersFrom_of_drawInt (hlow : kind.Holds (value low)) (hhigh : kind.Holds (value high))
    (hok : ∀ n, value low ≤ n → n < value high → ∃ a, value a = n ∧ ∀ s,
      drawInt kind (value low) (value high) g.stream = .ok (n, s) → x = .ok (a, g.counted s))
    (herror : ∀ e, value low < value high → drawInt kind (value low) (value high) g.stream = .error e → x = .error e)
    (hempty : ¬ value low < value high → x = .ok (low, g)) : AnswersFrom value kind low high g x where
  bounds hlt a g' hx := by
    rcases hdraw : drawInt kind (value low) (value high) g.stream with e | ⟨n, s⟩
    · rw [herror e hlt hdraw] at hx
      cases hx
    · obtain ⟨hge, hlt⟩ := bounds_of_drawInt hlow hhigh hdraw
      obtain ⟨b, rfl, hb⟩ := hok n hge hlt
      rw [hb s hdraw] at hx
      cases hx
      exact ⟨hge, hlt, rfl, rfl⟩
  ends hlt k hfirst := by
    obtain ⟨hge, hlt'⟩ := bounds_of_numberAt hlow hhigh hlt g.stream k
    obtain ⟨a, ha, hdraw⟩ := hok _ hge hlt'
    exact ⟨a, ha, ha ▸ hge, ha ▸ hlt', fun hk => hdraw _ (drawInt_of_first hlt hfirst hk)⟩
  exhausted hlt hnone := herror _ hlt (drawInt_of_none hlt hnone)
  empty := hempty

theorem intRangeOrLow_of_lt {low high : Int} (hlt : low < high) (kind : IntKind) (g : Rng) :
    g.intRangeOrLow kind low high = (drawInt kind low high g.stream).map fun y => (y.1, g.counted y.2) :=
  if_neg (Int.not_le.2 hlt)

theorem intRangeOrLow_of_le {low high : Int} (hle : high ≤ low) (kind : IntKind) (g : Rng) :
    g.intRangeOrLow kind low high = .ok (low, g) :=
  if_pos hle

theorem answersFrom_intRangeOrLow {low high : Int} (hlow : kind.Holds low) (hhigh : kind.Holds high) (g : Rng) :
    AnswersFrom id kind low high g (g.intRangeOrLow kind low high) := by
  refine answersFrom_of_drawInt hlow hhigh ?_ ?_ fun hge => intRangeOrLow_of_le (Int.not_lt.1 hge) kind g
  · intro n (hge : low ≤ n) (hlt : n < high)
    refine ⟨n, rfl, fun s (hs : drawInt kind low high g.stream = .ok (n, s)) => ?_⟩
    rw [intRangeOrLow_of_lt (Int.lt_of_le_of_lt hge hlt), hs]
    rfl
  · intro e (hlt : low < high) (he : drawInt kind low high g.stream = .error e)
    rw [intRangeOrLow_of_lt hlt, he]
    rfl

/-- Times are numbers of a type. -/
theorem holds_femtos (t : Time) : IntKind.i128.Holds t.femtos := ⟨t.min_le, t.lt_bound⟩

theorem timeBetween_of_ok {low high t : Time} {g' : Rng}
    (h : g.intRangeOrLow .i128 low.femtos high.femtos = .ok (t.femtos, g')) : g.timeBetween low high = .ok (t, g') := by
  have ht : Time.ofFemtos t.femtos = .ok t := by rw [Time.ofFemtos, Time.ofFemtos?_femtos]
  rw [timeBetween, h]
  change (Time.ofFemtos t.femtos >>= fun t => Except.ok (t, g')) = .ok (t, g')
  rw [ht]
  rfl

theorem answersFrom_timeBetween (low high : Time) (g : Rng) :
    AnswersFrom Time.femtos .i128 low high g (g.timeBetween low high) := by
  refine answersFrom_of_drawInt (holds_femtos low) (holds_femtos high) ?_ ?_ fun hge =>
    timeBetween_of_ok (intRangeOrLow_of_le (Int.not_lt.1 hge) .i128 g)
  · intro n hge hlt
    -- What lies between two times is a time.
    obtain ⟨t, rfl⟩ : ∃ t : Time, t.femtos = n :=
      ⟨⟨n, Int.le_trans low.min_le hge, Int.lt_trans hlt high.lt_bound⟩, rfl⟩
    refine ⟨t, rfl, fun s hs => timeBetween_of_ok ?_⟩
    rw [intRangeOrLow_of_lt (Int.lt_of_le_of_lt hge hlt), hs]
    rfl
  · intro e hlt he
    rw [timeBetween, intRangeOrLow_of_lt hlt, he]
    rfl

/-- **Random numbers stay in their range.** Whatever the state of the generator and however wide the range: asked for a
number of any type or for a time, it answers with one from the lower end up to the upper one, which is left out, and
counts once; if the range is empty it answers with the lower end and stays as it was. -/
theorem answers_from_ranges (g : Rng) :
    (∀ (kind : IntKind) (low high : Int), kind.Holds low → kind.Holds high →
      AnswersFrom id kind low high g (g.intRangeOrLow kind low high)) ∧
      ∀ low high : Time, AnswersFrom Time.femtos .i128 low high g (g.timeBetween low high) :=
  ⟨fun _ _ _ hlow hhigh => answersFrom_intRangeOrLow hlow hhigh g, fun low high => answersFrom_timeBetween low high g⟩

/-- Ranges that are wider than the greatest number of their types. -/
theorem answers_from_ranges_widest :
    (∃ n g', (ofSeed 7).intRangeOrLow .i8 (-128) 127 = .ok (n, g') ∧ -128 ≤ n ∧ n < 127 ∧ g'.calls = 1) ∧
      ∃ t g', (ofSeed 7).timeBetween Time.min Time.max = .ok (t, g') ∧ Time.min ≤ t ∧ t < Time.max ∧ g'.calls = 1 := by
  obtain ⟨hints, htimes⟩ := answers_from_ranges (ofSeed 7)
  constructor
  · have hfirst : FirstToCount .i8 (IntKind.i8.width (-128) 127) (ofSeed 7).stream 0 :=
      firstToCount_zero (by decide +kernel)
    obtain ⟨n, -, hge, hlt, hn⟩ := (hints .i8 (-128) 127 (by decide) (by decide)).ends (by decide) 0 hfirst
    exact ⟨n, _, hn (by decide), hge, hlt, rfl⟩
  · have hfirst : FirstToCount .i128 (IntKind.i128.width Time.min.femtos Time.max.femtos) (ofSeed 7).stream 0 :=
      firstToCount_zero (by decide +kernel)
    obtain ⟨t, -, hge, hlt, ht⟩ := (htimes Time.min Time.max).ends (by decide) 0 hfirst
    exact ⟨t, _, ht (by decide), hge, hlt, rfl⟩

end SimKernel.Rng
