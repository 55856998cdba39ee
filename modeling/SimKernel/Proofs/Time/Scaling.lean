import SimKernel.Proofs.Binary64.Arithmetic
import SimKernel.Time.Basic

/-!
# Scaling times

A time multiplied by a double from one half up to one is at most that time and at least half of it, the latter up to the
precision of a double if the time has more than 53 bits (`scale_bounds`). Three roundings are taken into account: of the
time to a double, of the product, and of the result to whole femtoseconds.

Multiplied by a double from one up to a power of two it is at least that time and at most its multiple by the power, up to
the precision of a double if the time is not a double itself (`scale_growth`).
-/

namespace SimKernel.Time

open Binary64

variable {t : Time} {f : Binary64} {q : ℚ}

/-! ## Whole femtoseconds -/

/-- The whole femtoseconds of a double lie between the whole numbers between which it lies. -/
theorem ofDouble_le {x : Binary64} {a : ℚ} (hx : x.StandsFor a) {n : ℤ} (h : a ≤ n) : (ofDouble x).femtos ≤ n := by
  obtain ⟨k, hk, hle, -⟩ := hx.toIntClamped least greatest
  have hkn : 2 * k ≤ 2 * n + 1 := by
    have : (2 * k : ℚ) ≤ 2 * n + 1 := by linarith
    exact_mod_cast this
  have hn : 0 ≤ n := by exact_mod_cast hx.nonneg.trans h
  simp only [ofDouble, hk, clamp, least, greatest] at *
  omega

theorem le_ofDouble {x : Binary64} {a : ℚ} (hx : x.StandsFor a) {n : ℤ} (h : n ≤ a) (hn : n ≤ greatest) :
    n ≤ (ofDouble x).femtos := by
  obtain ⟨k, hk, -, hlt⟩ := hx.toIntClamped least greatest
  have hkn : 2 * n < 2 * k + 1 := by
    have : (2 * n : ℚ) < 2 * k + 1 := by linarith
    exact_mod_cast this
  simp only [ofDouble, hk, clamp, least, greatest] at *
  omega

/-- Nor is a half of a whole number passed. -/
theorem half_le_ofDouble {x : Binary64} {a : ℚ} (hx : x.StandsFor a) (ha : a ≤ greatest) {n : ℤ} (h : n ≤ 2 * a) :
    n ≤ 2 * (ofDouble x).femtos := by
  obtain ⟨k, hk, hle, hlt⟩ := hx.toIntClamped least greatest
  have hkn : n < 2 * k + 1 := by
    have : (n : ℚ) < 2 * k + 1 := by linarith
    exact_mod_cast this
  have hhigh : 2 * k ≤ 2 * greatest + 1 := by
    have : (2 * k : ℚ) ≤ 2 * greatest + 1 := by linarith
    exact_mod_cast this
  simp only [ofDouble, hk, clamp, least, greatest] at *
  omega

/-! ## Shrinking -/

/-- The product before it is rounded to whole femtoseconds: less than the time, and at least half of its double `a`. -/
theorem exists_scaled (ht : 0 < t.femtos) (hf : f.StandsFor q) (hlow : 1 / 2 ≤ q) (hhigh : q ≤ 1 - 1 / 2 ^ 53) :
    ∃ a y : ℚ, IsRounding t.femtos a ∧ IsRounding (a * q) y ∧ ((Binary64.ofInt t.femtos).mul f).StandsFor y ∧
      y < t.femtos ∧ a / 2 ≤ y := by
  have ht1 : (1 : ℚ) ≤ t.femtos := by exact_mod_cast ht
  have hbound : (t.femtos : ℚ) < 2 ^ 127 := by exact_mod_cast t.lt_bound
  obtain ⟨a, hra, ha⟩ := standsFor_ofInt ht.le (hbound.le.trans (by norm_num))
  have ha1 : 1 ≤ a := hra.grid_le grid_one ht1
  have herr := abs_le.1 (hra.abs_sub_le (normal_of_half_le (by linarith)))
  have haq : a * q ≤ a * (1 - 1 / 2 ^ 53) := mul_le_mul_of_nonneg_left hhigh (by linarith)
  have haq' : a * (1 / 2) ≤ a * q := mul_le_mul_of_nonneg_left hlow (by linarith)
  obtain ⟨y, hry, hy⟩ := ha.mul hf (by norm_num at hbound ⊢; linarith)
  have hyerr := abs_le.1 (hry.abs_sub_le (normal_of_half_le (by linarith)))
  have hya : y < a := by
    have hsmall : 0 < a / 2 ^ 53 / 2 ^ 53 := by positivity
    have hdiv : a * q / 2 ^ 53 ≤ a * (1 - 1 / 2 ^ 53) / 2 ^ 53 := div_le_div_of_nonneg_right haq (by positivity)
    linarith
  refine ⟨a, y, hra, hry, hy, ?_, hry.grid_le (hra.grid.half ha1) (by linarith)⟩
  -- Were the product as great as the time, it would be as great as the double nearest to the time.
  by_contra hc
  exact absurd (hra.le_grid hy.grid (not_lt.1 hc)) (not_le.2 hya)

theorem scale_eq_zero (ht : t.femtos = 0) (hf : f.StandsFor q) : (t.scale f).femtos = 0 := by
  obtain ⟨a, hra, ha⟩ := standsFor_ofInt (n := 0) le_rfl (by norm_num)
  obtain rfl : a = 0 := by simpa using hra.eq_of_grid (by exact_mod_cast grid_natCast (n := 0) (by norm_num))
  obtain ⟨y, hry, hy⟩ := ha.mul hf (by norm_num)
  obtain rfl : y = 0 := by simpa using hry.eq_of_grid (by simpa using grid_natCast (n := 0) (by norm_num))
  have hle : (ofDouble ((Binary64.ofInt 0).mul f)).femtos ≤ 0 := ofDouble_le hy (by simp)
  have hge : 0 ≤ (ofDouble ((Binary64.ofInt 0).mul f)).femtos := le_ofDouble hy (by simp) (by decide)
  rw [scale, ht]
  omega

/-- **Scaling.** A time multiplied by a double from one half up to one. -/
theorem scale_bounds (ht : 0 ≤ t.femtos) (hf : f.StandsFor q) (hlow : 1 / 2 ≤ q) (hhigh : q ≤ 1 - 1 / 2 ^ 53) :
    0 ≤ (t.scale f).femtos ∧ (t.scale f).femtos ≤ t.femtos ∧
      (2 ^ 53 - 1) * t.femtos ≤ 2 ^ 54 * (t.scale f).femtos ∧
      (t.femtos ≤ 2 ^ 53 → t.femtos ≤ 2 * (t.scale f).femtos) := by
  rcases ht.eq_or_lt with ht | ht
  · have h := scale_eq_zero ht.symm hf
    omega
  obtain ⟨a, y, hra, hry, hy, hyt, hay⟩ := exists_scaled ht hf hlow hhigh
  have hbound : (t.femtos : ℚ) ≤ greatest := by exact_mod_cast Int.le_of_lt_add_one t.lt_bound
  have hx {n : ℤ} := half_le_ofDouble hy (hyt.le.trans hbound) (n := n)
  have hnonneg : 0 ≤ 2 * (t.scale f).femtos := hx (by push_cast; linarith [hy.nonneg])
  have hle : (t.scale f).femtos ≤ t.femtos := ofDouble_le hy hyt.le
  have hexact : t.femtos ≤ 2 ^ 53 → t.femtos ≤ 2 * (t.scale f).femtos := by
    intro hsmall
    rw [hra.eq_of_grid (grid_intCast ht.le hsmall)] at hay
    exact hx (by linarith)
  refine ⟨by omega, hle, ?_, hexact⟩
  rcases le_or_gt t.femtos (2 ^ 53) with hsmall | hgreat
  · have := hexact hsmall
    omega
  · -- The product is so great that its double is a whole number, and the last rounding does nothing.
    have ha : 2 ^ 53 ≤ a := by
      have := hra.grid_le (grid_natCast (n := 2 ^ 53) le_rfl) (by exact_mod_cast hgreat.le)
      exact_mod_cast this
    have hprod : a * (1 / 2) ≤ a * q := mul_le_mul_of_nonneg_left hlow (by linarith)
    obtain ⟨n, rfl⟩ := hry.exists_int (by linarith)
    have hn : 2 * n ≤ 2 * (t.scale f).femtos := hx (by push_cast; exact le_rfl)
    have ht1 : (1 : ℚ) ≤ t.femtos := by exact_mod_cast ht
    have herr := abs_le.1 (hra.abs_sub_le (normal_of_half_le (by linarith)))
    have : ((2 ^ 53 - 1) * t.femtos : ℚ) ≤ 2 ^ 54 * n := by linarith
    have : (2 ^ 53 - 1) * t.femtos ≤ 2 ^ 54 * n := by exact_mod_cast this
    omega

/-! ## Growing -/

/-- **Growing.** A time multiplied by a double from one up to a power of two: up to the precision of a double it lies
between the time and the time multiplied by that power, and exactly so if the time is a double. -/
theorem scale_growth {d : ℕ} (ht : 0 < t.femtos) (hd : t.femtos * 2 ^ d ≤ greatest) (hf : f.StandsFor q) (hlow : 1 ≤ q)
    (hhigh : q ≤ 2 ^ d) :
    (2 ^ 53 - 1) * t.femtos ≤ 2 ^ 53 * (t.scale f).femtos ∧
      2 ^ 53 * (t.scale f).femtos ≤ (2 ^ 53 + 1) * (t.femtos * 2 ^ d) ∧
      (Grid t.femtos → t.femtos ≤ (t.scale f).femtos ∧ (t.scale f).femtos ≤ t.femtos * 2 ^ d) := by
  have ht1 : (1 : ℚ) ≤ t.femtos := by exact_mod_cast ht
  have hbound : (t.femtos : ℚ) < 2 ^ 127 := by exact_mod_cast t.lt_bound
  have hroom : (t.femtos : ℚ) * 2 ^ d ≤ 2 ^ 127 := by
    have : (t.femtos * 2 ^ d : ℤ) ≤ 2 ^ 127 := hd.trans (by decide)
    exact_mod_cast this
  have hpow : (1 : ℚ) ≤ 2 ^ d := one_le_pow₀ one_le_two
  obtain ⟨a, hra, ha⟩ := standsFor_ofInt ht.le (hbound.le.trans (by norm_num))
  have ha1 : 1 ≤ a := hra.grid_le grid_one ht1
  have herr := abs_le.1 (hra.abs_sub_le (normal_of_half_le (by linarith)))
  have hlower : a ≤ a * q := le_mul_of_one_le_right (by linarith) hlow
  have hupper : a * q ≤ a * 2 ^ d := mul_le_mul_of_nonneg_left hhigh (by linarith)
  have hscaled : a * 2 ^ d ≤ t.femtos * 2 ^ d + t.femtos * 2 ^ d / 2 ^ 53 := by
    have := mul_le_mul_of_nonneg_right (show a ≤ t.femtos + t.femtos / 2 ^ 53 by linarith) (zero_le_one.trans hpow)
    linarith
  obtain ⟨y, hry, hy⟩ := ha.mul hf (by norm_num at hroom hscaled ⊢; linarith)
  have hay : a ≤ y := hry.grid_le hra.grid hlower
  have hya : y ≤ a * 2 ^ d := hry.le_grid (hra.grid.mul_two_pow d) hupper
  have hexact : Grid t.femtos → t.femtos ≤ (t.scale f).femtos ∧ (t.scale f).femtos ≤ t.femtos * 2 ^ d := by
    intro hgrid
    rw [hra.eq_of_grid hgrid] at hay hya
    exact ⟨le_ofDouble hy hay (Int.le_of_lt_add_one t.lt_bound), ofDouble_le hy (by push_cast; exact hya)⟩
  obtain ⟨m, hm⟩ : ∃ m, m = t.femtos * 2 ^ d := ⟨_, rfl⟩
  have hmt : t.femtos ≤ m := hm ▸ le_mul_of_one_le_right ht.le (one_le_pow₀ one_le_two)
  rw [← hm] at hd hexact ⊢
  rcases le_or_gt t.femtos (2 ^ 53) with hsmall | hgreat
  · have := hexact (grid_intCast ht.le hsmall)
    omega
  · -- The double nearest to the time is a whole number, and so is its multiple.
    have hgreat : (2 : ℚ) ^ 53 ≤ t.femtos := by exact_mod_cast hgreat.le
    obtain ⟨n, rfl⟩ := hra.exists_int (by linarith)
    have hlow : min n greatest ≤ (t.scale f).femtos :=
      le_ofDouble hy ((Int.cast_le.2 (min_le_left n greatest)).trans hay) (min_le_right n greatest)
    have hhigh : (t.scale f).femtos ≤ n * 2 ^ d := ofDouble_le hy (by push_cast; exact hya)
    have hn : (2 ^ 53 - 1) * t.femtos ≤ 2 ^ 53 * n := by
      have : ((2 ^ 53 - 1) * t.femtos : ℚ) ≤ 2 ^ 53 * n := by linarith
      exact_mod_cast this
    have hnd : 2 ^ 53 * (n * 2 ^ d) ≤ (2 ^ 53 + 1) * m := by
      have : (2 ^ 53 * (n * 2 ^ d) : ℚ) ≤ (2 ^ 53 + 1) * (t.femtos * 2 ^ d) := by linarith
      rw [hm]
      exact_mod_cast this
    refine ⟨?_, by omega, hexact⟩
    rcases min_choice n greatest with h | h <;> rw [h] at hlow <;> omega

end SimKernel.Time
