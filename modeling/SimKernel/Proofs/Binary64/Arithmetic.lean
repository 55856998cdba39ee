import SimKernel.Proofs.Binary64.Nearest
import SimKernel.Proofs.Random.Ranges

/-!
# Arithmetic on doubles

Sums and products of doubles that are not negative are the exact ones, rounded once (`StandsFor.add`, `StandsFor.mul`),
and comparing doubles is comparing numbers (`StandsFor.lt_iff`). So a double drawn from a range lies in it
(`standsFor_of_drawScaled`), and a fraction added to a whole number stays below the next power of two or is rounded to it
(`exists_standsFor_whole_add`).
-/

namespace SimKernel.Binary64

variable {x y : Binary64} {a b : ℚ}

theorem StandsFor.nonneg (h : x.StandsFor a) : 0 ≤ a := by
  obtain ⟨m, e, -, rfl⟩ := h
  positivity

theorem significand_lt_of_value {negative : Bool} {m : ℕ} {e : ℤ} (h : x.value = .finite negative m e) :
    m < 2 ^ 53 ∧ minExponent ≤ e := by
  have hsize : fractionSize = 2 ^ 52 := rfl
  have hmod := Nat.mod_lt x.bits.toNat (show 0 < fractionSize by decide)
  simp only [value] at h
  split at h
  · split at h <;> cases h
  · split at h <;> cases h <;> constructor <;> omega

/-- Finite doubles have 53 bits. -/
theorem StandsFor.grid (h : x.StandsFor a) : Grid a := by
  obtain ⟨m, e, hv, rfl⟩ := h
  obtain ⟨hm, he⟩ := significand_lt_of_value hv
  exact ⟨m, e, hm.le, he, rfl⟩

theorem grid_one : Grid 1 :=
  ⟨1, 0, by norm_num, by decide, by simp⟩

theorem grid_natCast {n : ℕ} (hn : n ≤ 2 ^ 53) : Grid n :=
  ⟨n, 0, hn, by decide, by simp⟩

theorem grid_intCast {n : ℤ} (hn : 0 ≤ n) (hle : n ≤ 2 ^ 53) : Grid n := by
  obtain ⟨k, rfl⟩ := Int.eq_ofNat_of_zero_le hn
  rw [Int.cast_natCast]
  exact grid_natCast (by omega)

/-- From one half on, the unit is not the least one. -/
theorem normal_of_half_le (h : 1 / 2 ≤ a) : 2 ^ 52 * 2 ^ minExponent ≤ a := by
  have hpow : (2 : ℚ) ^ minExponent ≤ 2 ^ (-53 : ℤ) := zpow_le_zpow_right₀ one_le_two (by decide)
  norm_num at hpow
  linarith

/-- The double before one. -/
theorem Grid.le_of_lt_one (h : Grid a) (hlt : a < 1) : a ≤ 1 - 1 / 2 ^ 53 := by
  obtain ⟨m, e, hm, -, rfl⟩ := h
  rcases lt_or_ge e (-53) with he | he
  · have hle : (m : ℚ) * 2 ^ e ≤ 2 ^ 52 * 2 ^ (-53 : ℤ) := grid_le_of_lt hm he
    exact hle.trans (by norm_num)
  · obtain ⟨k, hk⟩ := exists_units (n := m) he
    rw [← hk] at hlt ⊢
    have hpow : (2 : ℚ) ^ (-53 : ℤ) = 1 / 2 ^ 53 := by norm_num
    rw [hpow] at hlt ⊢
    have hlt : (k : ℚ) < (2 ^ 53 : ℤ) := by
      push_cast
      linarith
    have hle : (k : ℚ) + 1 ≤ (2 ^ 53 : ℤ) := by exact_mod_cast Int.add_one_le_of_lt (Int.cast_lt.1 hlt)
    push_cast at hle
    linarith

/-- Doubles of one and more have exact halves. -/
theorem Grid.half (h : Grid a) (ha : 1 ≤ a) : Grid (a / 2) := by
  obtain ⟨m, e, hm, -, rfl⟩ := h
  have he : -53 ≤ e := by
    by_contra hc
    have hle : (m : ℚ) * 2 ^ e ≤ 2 ^ 52 * 2 ^ (-53 : ℤ) := grid_le_of_lt hm (not_le.1 hc)
    norm_num at hle
    linarith
  refine ⟨m, e - 1, hm, by simp only [minExponent]; omega, ?_⟩
  rw [zpow_sub₀ two_ne_zero, zpow_one, mul_div_assoc]

/-- A double times a power of two, if that is not too great. -/
theorem Grid.mul_two_pow (h : Grid a) (d : ℕ) : Grid (a * 2 ^ d) := by
  obtain ⟨m, e, hm, he, rfl⟩ := h
  refine ⟨m, e + d, hm, by omega, ?_⟩
  rw [zpow_add₀ two_ne_zero, zpow_natCast, mul_assoc]

/-- Above a power of two doubles are apart by its 52nd part in powers of two. -/
theorem Grid.add_le_of_lt (h : Grid a) {d : ℕ} (hlt : 2 ^ d < a) : 2 ^ d + 2 ^ d / 2 ^ 52 ≤ a := by
  obtain ⟨m, e, hm, -, rfl⟩ := h
  obtain ⟨u, hu⟩ : ∃ u : ℤ, u = d - 52 := ⟨_, rfl⟩
  have hpow : (2 : ℚ) ^ d = 2 ^ 52 * 2 ^ u := by
    rw [← zpow_natCast 2 d, ← zpow_natCast 2 52, ← zpow_add₀ two_ne_zero]
    congr 1
    omega
  rw [hpow] at hlt ⊢
  have he : u ≤ e := by
    by_contra hc
    exact absurd (grid_le_of_lt hm (not_le.1 hc)) (not_le.2 hlt)
  obtain ⟨k, hk⟩ := exists_units (n := m) he
  rw [← hk] at hlt ⊢
  have hk : (2 ^ 52 : ℤ) < k := by exact_mod_cast lt_of_mul_lt_mul_right hlt (two_zpow_pos u).le
  have hk : ((2 ^ 52 + 1 : ℤ) : ℚ) ≤ k := by exact_mod_cast hk
  have := mul_le_mul_of_nonneg_right hk (two_zpow_pos u).le
  push_cast at this
  linarith

theorem standsFor_ofScaled {m : ℕ} {e : ℤ} (hb : (m : ℚ) * 2 ^ e ≤ 2 ^ 200) :
    ∃ q : ℚ, IsRounding (m * 2 ^ e) q ∧ (ofScaled false m e).StandsFor q := by
  have hq : ((m <<< e.toNat : ℕ) : ℚ) / (1 <<< (-e).toNat : ℕ) = m * 2 ^ e := by
    have := cast_shiftLeft_div m 1 (-e)
    rw [neg_neg, zpow_neg, div_inv_eq_mul, Nat.cast_one, div_one] at this
    exact this
  have hd : 0 < 1 <<< (-e).toNat := by rw [Nat.shiftLeft_eq]; positivity
  have h := standsFor_nearest (m <<< e.toNat) hd (by rw [hq]; exact hb)
  rwa [hq] at h

theorem standsFor_ofInt {n : ℤ} (hn : 0 ≤ n) (hb : (n : ℚ) ≤ 2 ^ 200) :
    ∃ q : ℚ, IsRounding n q ∧ (ofInt n).StandsFor q := by
  obtain ⟨k, rfl⟩ := Int.eq_ofNat_of_zero_le hn
  have h := standsFor_nearest k one_pos (by simpa using hb)
  have hneg : decide ((k : ℤ) < 0) = false := decide_eq_false (by omega)
  simpa only [ofInt, hneg, Int.natAbs_natCast, Int.cast_natCast, Nat.cast_one, div_one] using h

theorem StandsFor.mul (hx : x.StandsFor a) (hy : y.StandsFor b) (hb : a * b ≤ 2 ^ 200) :
    ∃ q : ℚ, IsRounding (a * b) q ∧ (x.mul y).StandsFor q := by
  obtain ⟨m, e, hv, rfl⟩ := hx
  obtain ⟨n, f, hv', rfl⟩ := hy
  have hp : (m : ℚ) * 2 ^ e * (n * 2 ^ f) = (m * n : ℕ) * 2 ^ (e + f) := by
    rw [zpow_add₀ two_ne_zero]
    push_cast
    ring
  rw [hp] at hb ⊢
  simpa [Binary64.mul, hv, hv'] using standsFor_ofScaled hb

/-- Two numbers at the lesser of their exponents. -/
theorem cast_shiftLeft_min (m : ℕ) {e f : ℤ} (h : f ≤ e) : ((m <<< (e - f).toNat : ℕ) : ℚ) * 2 ^ f = m * 2 ^ e := by
  rw [cast_shiftLeft, ← zpow_natCast, mul_assoc, ← zpow_add₀ two_ne_zero]
  congr 2
  omega

theorem StandsFor.add (hx : x.StandsFor a) (hy : y.StandsFor b) (hb : a + b ≤ 2 ^ 200) :
    ∃ q : ℚ, IsRounding (a + b) q ∧ (x.add y).StandsFor q := by
  obtain ⟨m, e, hv, rfl⟩ := hx
  obtain ⟨n, f, hv', rfl⟩ := hy
  have hs : (m : ℚ) * 2 ^ e + n * 2 ^ f = (m <<< (e - min e f).toNat + n <<< (f - min e f).toNat : ℕ) * 2 ^ min e f := by
    rw [Nat.cast_add, add_mul, cast_shiftLeft_min m (min_le_left e f), cast_shiftLeft_min n (min_le_right e f)]
  rw [hs] at hb ⊢
  generalize hk : m <<< (e - min e f).toNat + n <<< (f - min e f).toNat = k at hb
  have hadd : x.add y = ofScaled false k (min e f) := by
    have hsum : ((m <<< (e - min e f).toNat : ℕ) : ℤ) + (n <<< (f - min e f).toNat : ℕ) = k := by
      rw [← hk]
      push_cast
      rfl
    have hneg : decide ((k : ℤ) < 0) = false := decide_eq_false (by omega)
    simp only [Binary64.add, hv, hv', signed, Bool.false_eq_true, if_false, hsum, hneg, Int.natAbs_natCast]
    split
    case isTrue hk =>
      obtain rfl : k = 0 := by exact_mod_cast hk
      simp [ofScaled, nearest]
    case isFalse => rfl
  rw [hadd]
  exact standsFor_ofScaled hb

theorem StandsFor.lt_iff (hx : x.StandsFor a) (hy : y.StandsFor b) : x.lt y = true ↔ a < b := by
  obtain ⟨m, e, hv, rfl⟩ := hx
  obtain ⟨n, f, hv', rfl⟩ := hy
  rw [← cast_shiftLeft_min m (min_le_left e f), ← cast_shiftLeft_min n (min_le_right e f),
    mul_lt_mul_iff_left₀ (two_zpow_pos _), Nat.cast_lt]
  simp only [Binary64.lt, hv, hv', signed, Bool.false_eq_true, if_false, decide_eq_true_eq]
  exact_mod_cast Iff.rfl

/-- The nearest whole number, the greater one at a tie. -/
theorem StandsFor.toIntClamped (hx : x.StandsFor a) (low high : ℤ) :
    ∃ n : ℤ, x.toIntClamped low high = max low (min high n) ∧ 2 * (n : ℚ) ≤ 2 * a + 1 ∧ 2 * a < 2 * n + 1 := by
  obtain ⟨m, e, hv, rfl⟩ := hx
  obtain ⟨num, hnum⟩ : ∃ k, k = m <<< e.toNat := ⟨_, rfl⟩
  obtain ⟨den, hden⟩ : ∃ k, k = 1 <<< (-e).toNat := ⟨_, rfl⟩
  have hpos : 0 < den := by
    rw [hden, Nat.shiftLeft_eq]
    positivity
  have hq : (m : ℚ) * 2 ^ e * den = num := by
    rw [hnum, hden, cast_shiftLeft, cast_shiftLeft, ← two_zpow_mul_toNat e]
    push_cast
    ring
  have hden' : (0 : ℚ) < den := by exact_mod_cast hpos
  refine ⟨Rounding.halfUp num den, by simp [Binary64.toIntClamped, hv, signed, hnum, hden], ?_, ?_⟩
  · have hle : (2 * (den * Rounding.halfUp num den) : ℚ) ≤ 2 * num + den := by
      exact_mod_cast Rounding.two_mul_halfUp_le num den
    refine le_of_mul_le_mul_right ?_ hden'
    push_cast
    linarith
  · have hlt : (2 * num + den : ℚ) < 2 * den * (Rounding.halfUp num den + 1) := by
      exact_mod_cast Nat.lt_mul_div_succ (2 * num + den) (show 0 < 2 * den by omega)
    refine lt_of_mul_lt_mul_right ?_ hden'.le
    push_cast
    linarith

/-! ## Whole numbers and fractions -/

section Whole

variable {n : ℤ} {d : ℕ}

/-- The double nearest to a whole number up to a power of two. -/
theorem exists_standsFor_whole (hn : 1 ≤ n) (hle : n ≤ 2 ^ d) (hd : d < 64) :
    ∃ q : ℚ, IsRounding n q ∧ (ofInt n).StandsFor q ∧ 1 ≤ q ∧ q ≤ 2 ^ d := by
  have hle : (n : ℚ) ≤ 2 ^ d := by exact_mod_cast hle
  have hpow : (2 : ℚ) ^ d ≤ 2 ^ 64 := pow_le_pow_right₀ one_le_two hd.le
  have hgrid : Grid (2 ^ d) := by simpa using grid_one.mul_two_pow d
  obtain ⟨q, hrq, hq⟩ := standsFor_ofInt (zero_le_one.trans hn) (by norm_num at hpow ⊢; linarith)
  exact ⟨q, hrq, hq, hrq.grid_le grid_one (by exact_mod_cast hn), hrq.le_grid hgrid hle⟩

/-- Adding a fraction to a whole number below a power of two does not go beyond that power. -/
theorem exists_standsFor_whole_add (hn : 1 ≤ n) (hlt : n < 2 ^ d) (hd : d < 64) (hx : x.StandsFor a) (ha : a ≤ 1) :
    ∃ q : ℚ, ((ofInt n).add x).StandsFor q ∧ 1 ≤ q ∧ q ≤ 2 ^ d := by
  have hpow : (2 : ℚ) ^ d ≤ 2 ^ 64 := pow_le_pow_right₀ one_le_two hd.le
  have hgrid : Grid (2 ^ d) := by simpa using grid_one.mul_two_pow d
  obtain ⟨c, hrc, hc, hc1, hcd⟩ := exists_standsFor_whole hn hlt.le hd
  obtain ⟨q, hrq, hq⟩ := hc.add hx (by norm_num at hpow ⊢; linarith)
  refine ⟨q, hq, hrq.grid_le grid_one (by linarith [hx.nonneg]), ?_⟩
  rcases le_or_gt n (2 ^ 53) with hsmall | hgreat
  · have hnext : (n : ℚ) + 1 ≤ 2 ^ d := by exact_mod_cast hlt
    rw [hrc.eq_of_grid (grid_intCast (zero_le_one.trans hn) hsmall)] at hrq
    exact hrq.le_grid hgrid (by linarith)
  · -- Here the whole number may have been rounded to the power itself, and the fraction is less than the rounding.
    have hd : 54 ≤ d := by
      by_contra hc
      have : (2 : ℤ) ^ d ≤ 2 ^ 53 := pow_le_pow_right₀ one_le_two (by omega)
      omega
    have hpow54 : (2 : ℚ) ^ 54 ≤ 2 ^ d := pow_le_pow_right₀ one_le_two hd
    by_contra hc
    have hfar := hrq.grid.add_le_of_lt (not_le.1 hc)
    have herr := abs_le.1 (hrq.abs_sub_le (normal_of_half_le (by linarith [hx.nonneg])))
    norm_num at hfar herr hpow54
    linarith

end Whole

/-! ## Random numbers -/

open SimKernel.Random

/-- A double drawn without a range is at most one. -/
theorem standsFor_of_drawUnit (s : WordStream) : ∃ q, (drawUnit s).1.StandsFor q ∧ q ≤ 1 := by
  obtain ⟨k, hk⟩ : ∃ k, k = (s.draw 2).1 >>> 11 := ⟨_, rfl⟩
  have hk53 : k ≤ 2 ^ 53 := by
    have := draw_lt 2 s
    rw [hk, Nat.shiftRight_eq_div_pow]
    omega
  have hle : (k : ℚ) * 2 ^ (-53 : ℤ) ≤ 1 := by
    have : (k : ℚ) ≤ 2 ^ 53 := by exact_mod_cast hk53
    rw [show (2 : ℚ) ^ (-53 : ℤ) = 1 / 2 ^ 53 by norm_num]
    linarith
  obtain ⟨q, hrq, hq⟩ := standsFor_ofScaled (m := k) (e := -53) (hle.trans (by norm_num))
  refine ⟨q, ?_, hrq.le_grid grid_one hle⟩
  rw [hk] at hq
  exact hq

/-- A double drawn from a range lies in it. -/
theorem standsFor_of_drawScaled {low high width : Binary64} {c : ℚ} (hlow : low.StandsFor a) (hhigh : high.StandsFor b)
    (hwidth : width.StandsFor c) (ha : a ≤ 1) (hc : c ≤ 1) {fuel : ℕ} {s s' : WordStream}
    (h : drawScaled low high width fuel s = .ok (x, s')) : ∃ q, x.StandsFor q ∧ a ≤ q ∧ q < b := by
  induction fuel generalizing s with
  | zero => cases h
  | succ fuel ih =>
    simp only [drawScaled] at h
    split at h
    case isFalse => exact ih h
    case isTrue hlt =>
      obtain ⟨rfl, -⟩ := Prod.mk.inj (Except.ok.inj h)
      obtain ⟨k, hk⟩ : ∃ k, k = (s.draw 2).1 >>> 12 := ⟨_, rfl⟩
      have hk52 : k ≤ 2 ^ 52 := by
        have := draw_lt 2 s
        rw [hk, Nat.shiftRight_eq_div_pow]
        omega
      have hu1 : (k : ℚ) * 2 ^ (-52 : ℤ) ≤ 1 := by
        have : (k : ℚ) ≤ 2 ^ 52 := by exact_mod_cast hk52
        rw [show (2 : ℚ) ^ (-52 : ℤ) = 1 / 2 ^ 52 by norm_num]
        linarith
      rw [← hk] at hlt ⊢
      obtain ⟨u, hru, hu⟩ := standsFor_ofScaled (m := k) (e := -52) (hu1.trans (by norm_num))
      have hu1 : u ≤ 1 := hru.le_grid grid_one hu1
      have huc : u * c ≤ 1 := mul_le_one₀ hu1 hwidth.nonneg hc
      obtain ⟨v, hrv, hv⟩ := hu.mul hwidth (huc.trans (by norm_num))
      have hv1 : v ≤ 1 := hrv.le_grid grid_one huc
      obtain ⟨q, hrq, hq⟩ := hv.add hlow (by norm_num; linarith)
      refine ⟨q, hq, hrq.grid_le hlow.grid ?_, (hq.lt_iff hhigh).1 hlt⟩
      linarith [hv.nonneg]

end SimKernel.Binary64
