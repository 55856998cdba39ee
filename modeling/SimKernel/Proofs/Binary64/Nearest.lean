import Mathlib.Algebra.Order.Field.Power
import Mathlib.Data.Rat.Cast.Order
import Mathlib.Tactic.FieldSimp
import Mathlib.Tactic.Linarith
import Mathlib.Tactic.Positivity
import Mathlib.Tactic.Ring
import SimKernel.Binary64.Basic

/-!
# Rounding to the nearest double

What `nearest` answers, as a rational number. `Nearest r m e` says that `m * 2 ^ e` is a double nearest to `r`, with the
exponent that belongs to `r`; `nearest` finds such a double (`standsFor_nearest`).

The rest is derived from this, for the doubles nearest to a number (`IsRounding`). Rounding does not cross doubles: one that
is below `r` is also below the double nearest to `r`, and so above (`IsRounding.grid_le`, `IsRounding.le_grid`). The
relative error is at most the 53rd power of one half (`IsRounding.abs_sub_le`).
-/

namespace SimKernel.Binary64

/-- The number is finite and not negative, and it is `q`. -/
def StandsFor (x : Binary64) (q : ℚ) : Prop :=
  ∃ (m : ℕ) (e : ℤ), x.value = .finite false m e ∧ (m : ℚ) * 2 ^ e = q

/-- Up to 53 bits at some place: a number that is a double if it is not too great. -/
def Grid (q : ℚ) : Prop :=
  ∃ (m : ℕ) (e : ℤ), m ≤ 2 ^ 53 ∧ minExponent ≤ e ∧ (m : ℚ) * 2 ^ e = q

/-- A whole number of units `2 ^ e` that is nearest to `r`, where the unit is the one for numbers as great as `r`. -/
structure Nearest (r : ℚ) (m : ℕ) (e : ℤ) : Prop where
  minExponent_le : minExponent ≤ e
  lt : r < 2 ^ 53 * 2 ^ e
  le : e = minExponent ∨ 2 ^ 52 * 2 ^ e ≤ r
  abs_sub_le : |m * 2 ^ e - r| ≤ 2 ^ e / 2

/-! ## Powers of two -/

theorem two_zpow_pos (e : ℤ) : (0 : ℚ) < 2 ^ e := by positivity

/-- Of a power with any exponent, numerator and denominator. -/
theorem two_zpow_mul_toNat (e : ℤ) : (2 : ℚ) ^ e * 2 ^ (-e).toNat = 2 ^ e.toNat := by
  rw [← zpow_natCast, ← zpow_natCast, ← zpow_add₀ two_ne_zero]
  congr 1
  omega

theorem cast_shiftLeft (n k : ℕ) : ((n <<< k : ℕ) : ℚ) = n * 2 ^ k := by
  rw [Nat.shiftLeft_eq]
  push_cast
  rfl

/-- Shifting numerator and denominator, one of them by nothing, scales the quotient. -/
theorem cast_shiftLeft_div (num den : ℕ) (e : ℤ) :
    ((num <<< (-e).toNat : ℕ) : ℚ) / (den <<< e.toNat : ℕ) = num / den / 2 ^ e := by
  have he := two_zpow_mul_toNat e
  have hn : (2 : ℚ) ^ (-e).toNat ≠ 0 := by positivity
  have hz : (2 : ℚ) ^ e ≠ 0 := by positivity
  rw [cast_shiftLeft, cast_shiftLeft, ← he]
  rcases eq_or_ne (den : ℚ) 0 with hd | hd
  · simp [hd]
  · field_simp

theorem shiftLeft_le_shiftLeft_iff (num den : ℕ) (e : ℤ) :
    den <<< e.toNat ≤ num <<< (-e).toNat ↔ (den : ℚ) * 2 ^ e ≤ num := by
  have hn : (0 : ℚ) < 2 ^ (-e).toNat := by positivity
  rw [← Nat.cast_le (α := ℚ), cast_shiftLeft, cast_shiftLeft, ← two_zpow_mul_toNat e, ← mul_assoc]
  exact mul_le_mul_iff_left₀ hn

/-- The whole part of the logarithm. -/
theorem log2Quotient_spec {num den : ℕ} (hn : 0 < num) (hd : 0 < den) :
    2 ^ log2Quotient num den ≤ (num / den : ℚ) ∧ (num / den : ℚ) < 2 ^ (log2Quotient num den + 1) := by
  have hden : (0 : ℚ) < den := by exact_mod_cast hd
  have hnum_le : (2 : ℚ) ^ num.log2 ≤ num := by exact_mod_cast Nat.log2_self_le hn.ne'
  have hnum_lt : (num : ℚ) < 2 ^ (num.log2 + 1) := by exact_mod_cast Nat.lt_log2_self
  have hden_le : (2 : ℚ) ^ den.log2 ≤ den := by exact_mod_cast Nat.log2_self_le hd.ne'
  have hden_lt : (den : ℚ) < 2 ^ (den.log2 + 1) := by exact_mod_cast Nat.lt_log2_self
  obtain ⟨l, hl⟩ : ∃ l : ℤ, l = num.log2 - den.log2 := ⟨_, rfl⟩
  have hbelow : (2 : ℚ) ^ (l - 1) * den ≤ num := by
    have he : (2 : ℚ) ^ (l - 1) * 2 ^ (den.log2 + 1) = 2 ^ num.log2 := by
      rw [← zpow_natCast, ← zpow_natCast, ← zpow_add₀ two_ne_zero]
      congr 1
      push_cast
      omega
    have := mul_le_mul_of_nonneg_left hden_lt.le (two_zpow_pos (l - 1)).le
    linarith
  have habove : (num : ℚ) < 2 ^ (l + 1) * den := by
    have he : (2 : ℚ) ^ (l + 1) * 2 ^ den.log2 = 2 ^ (num.log2 + 1) := by
      rw [← zpow_natCast, ← zpow_natCast, ← zpow_add₀ two_ne_zero]
      congr 1
      push_cast
      omega
    have := mul_le_mul_of_nonneg_left hden_le (two_zpow_pos (l + 1)).le
    linarith
  have hiff := shiftLeft_le_shiftLeft_iff num den l
  unfold log2Quotient
  rw [← hl]
  dsimp only
  rw [le_div_iff₀ hden, div_lt_iff₀ hden]
  split
  case isTrue h => exact ⟨by linarith [hiff.1 h], habove⟩
  case isFalse h =>
    rw [Int.sub_add_cancel]
    exact ⟨hbelow, by linarith [not_le.1 (hiff.not.1 h)]⟩

/-! ## Significands -/

/-- A number of a coarser unit is a whole number of units. -/
theorem exists_units {n : ℕ} {e j : ℤ} (h : e ≤ j) : ∃ k : ℤ, (k : ℚ) * 2 ^ e = n * 2 ^ j := by
  refine ⟨n * 2 ^ (j - e).toNat, ?_⟩
  push_cast
  rw [mul_assoc, ← zpow_natCast, ← zpow_add₀ two_ne_zero]
  congr 2
  omega

/-- Numbers of a finer unit are below all numbers that need the coarser one. -/
theorem grid_le_of_lt {n : ℕ} {e j : ℤ} (hn : n ≤ 2 ^ 53) (h : j < e) : (n : ℚ) * 2 ^ j ≤ 2 ^ 52 * 2 ^ e := by
  have hn : (n : ℚ) ≤ 2 ^ 53 := by exact_mod_cast hn
  have hj : (2 : ℚ) ^ j ≤ 2 ^ (e - 1) := zpow_le_zpow_right₀ one_le_two (by omega)
  calc (n : ℚ) * 2 ^ j ≤ 2 ^ 53 * 2 ^ (e - 1) := mul_le_mul hn hj (two_zpow_pos j).le (by positivity)
    _ = 2 ^ 52 * 2 ^ e := by rw [zpow_sub₀ two_ne_zero, zpow_one]; ring

namespace Nearest

variable {r : ℚ} {m : ℕ} {e : ℤ}

theorem le_add (h : Nearest r m e) : (m : ℚ) * 2 ^ e ≤ r + 2 ^ e / 2 := by
  have := (abs_le.1 h.abs_sub_le).2
  linarith

theorem sub_le (h : Nearest r m e) : r - 2 ^ e / 2 ≤ (m : ℚ) * 2 ^ e := by
  have := (abs_le.1 h.abs_sub_le).1
  linarith

/-- Whole numbers of units are not crossed by rounding to whole numbers of units. -/
theorem units_le (h : Nearest r m e) {n : ℤ} (hn : (n : ℚ) * 2 ^ e ≤ r) : n ≤ m := by
  have hu := two_zpow_pos e
  have : ((n : ℚ) - m - 1) * 2 ^ e < 0 := by linarith [h.sub_le]
  have : (n : ℚ) - m - 1 < 0 := by
    by_contra hc
    exact absurd this (not_lt.2 (mul_nonneg (not_lt.1 hc) hu.le))
  have : (n : ℚ) < (m : ℤ) + 1 := by push_cast; linarith
  exact Int.lt_add_one_iff.1 (by exact_mod_cast this)

theorem le_units (h : Nearest r m e) {n : ℤ} (hn : r ≤ (n : ℚ) * 2 ^ e) : (m : ℤ) ≤ n := by
  have hu := two_zpow_pos e
  have : ((m : ℚ) - n - 1) * 2 ^ e < 0 := by linarith [h.le_add]
  have : (m : ℚ) - n - 1 < 0 := by
    by_contra hc
    exact absurd this (not_lt.2 (mul_nonneg (not_lt.1 hc) hu.le))
  have : ((m : ℤ) : ℚ) < n + 1 := by push_cast; linarith
  exact Int.lt_add_one_iff.1 (by exact_mod_cast this)

theorem significand_le (h : Nearest r m e) : m ≤ 2 ^ 53 := by
  have := h.le_units (n := 2 ^ 53) (by push_cast; exact h.lt.le)
  exact_mod_cast this

theorem le_significand (h : Nearest r m e) : e = minExponent ∨ 2 ^ 52 ≤ m := by
  refine h.le.imp id fun hle => ?_
  have := h.units_le (n := 2 ^ 52) (by push_cast; exact hle)
  exact_mod_cast this

theorem grid (h : Nearest r m e) : Grid (m * 2 ^ e) :=
  ⟨m, e, h.significand_le, h.minExponent_le, rfl⟩

/-- Rounding does not cross a double from above. -/
theorem grid_le (h : Nearest r m e) {g : ℚ} (hg : Grid g) (hle : g ≤ r) : g ≤ m * 2 ^ e := by
  obtain ⟨n, j, hn, hj, rfl⟩ := hg
  rcases lt_or_ge j e with hlt | hge
  · have hm : (2 : ℚ) ^ 52 ≤ m := by
      exact_mod_cast h.le_significand.resolve_left (by omega)
    exact (grid_le_of_lt hn hlt).trans (mul_le_mul_of_nonneg_right hm (two_zpow_pos e).le)
  · obtain ⟨k, hk⟩ := exists_units (n := n) hge
    rw [← hk] at hle ⊢
    exact mul_le_mul_of_nonneg_right (by exact_mod_cast h.units_le hle) (two_zpow_pos e).le

/-- Rounding does not cross a double from below. -/
theorem le_grid (h : Nearest r m e) {g : ℚ} (hg : Grid g) (hle : r ≤ g) : m * 2 ^ e ≤ g := by
  obtain ⟨n, j, hn, hj, rfl⟩ := hg
  obtain ⟨k, hk⟩ : ∃ k : ℤ, (k : ℚ) * 2 ^ e = n * 2 ^ j := by
    rcases lt_or_ge j e with hlt | hge
    · -- The number is as great as `r` and yet of a finer unit, so it is the least one of its unit.
      refine ⟨2 ^ 52, ?_⟩
      push_cast
      exact le_antisymm ((h.le.resolve_left (by omega)).trans hle) (grid_le_of_lt hn hlt)
    · exact exists_units hge
  rw [← hk] at hle ⊢
  exact mul_le_mul_of_nonneg_right (by exact_mod_cast h.le_units hle) (two_zpow_pos e).le

/-- The error is small against the number, where the unit is not the least one. -/
theorem abs_sub_le_div (h : Nearest r m e) (hr : 2 ^ 52 * 2 ^ minExponent ≤ r) : |m * 2 ^ e - r| ≤ r / 2 ^ 53 := by
  have hle : 2 ^ 52 * 2 ^ e ≤ r := h.le.elim (fun he => he ▸ hr) id
  refine h.abs_sub_le.trans ?_
  rw [div_le_div_iff₀ two_pos (by positivity)]
  linarith

end Nearest

/-- The number `q` is a double nearest to `r`. -/
def IsRounding (r q : ℚ) : Prop :=
  ∃ m e, Nearest r m e ∧ (m : ℚ) * 2 ^ e = q

namespace IsRounding

variable {r q g : ℚ}

theorem grid (h : IsRounding r q) : Grid q := by
  obtain ⟨m, e, h, rfl⟩ := h
  exact h.grid

theorem grid_le (h : IsRounding r q) (hg : Grid g) (hle : g ≤ r) : g ≤ q := by
  obtain ⟨m, e, h, rfl⟩ := h
  exact h.grid_le hg hle

theorem le_grid (h : IsRounding r q) (hg : Grid g) (hle : r ≤ g) : q ≤ g := by
  obtain ⟨m, e, h, rfl⟩ := h
  exact h.le_grid hg hle

/-- Doubles are not rounded. -/
theorem eq_of_grid (h : IsRounding r q) (hr : Grid r) : q = r :=
  le_antisymm (h.le_grid hr le_rfl) (h.grid_le hr le_rfl)

theorem abs_sub_le (h : IsRounding r q) (hr : 2 ^ 52 * 2 ^ minExponent ≤ r) : |q - r| ≤ r / 2 ^ 53 := by
  obtain ⟨m, e, h, rfl⟩ := h
  exact h.abs_sub_le_div hr

/-- From the number of 53 bits on, doubles are whole numbers. -/
theorem exists_int (h : IsRounding r q) (hr : 2 ^ 52 ≤ r) : ∃ n : ℤ, q = n := by
  obtain ⟨m, e, h, rfl⟩ := h
  have he : 0 ≤ e := by
    by_contra hc
    have hpow : (2 : ℚ) ^ e ≤ 2 ^ (-1 : ℤ) := zpow_le_zpow_right₀ one_le_two (by omega)
    rw [zpow_neg_one] at hpow
    linarith [h.lt]
  obtain ⟨k, hk⟩ := exists_units (n := m) he
  exact ⟨k, by rw [← hk, zpow_zero, mul_one]⟩

end IsRounding

/-! ## The bits -/

/-- The two fields of a magnitude, where a significand of 54 bits carries into the exponent. -/
theorem value_ofMagnitude {k m : ℕ} (hm : m ≤ 2 ^ 53) (hk : k = 0 ∨ 2 ^ 52 ≤ m) (hlt : k < 2045) :
    (ofMagnitude false (k * fractionSize + m)).value =
      if m = 2 ^ 53 then .finite false (2 ^ 52) (k + 1 + minExponent) else .finite false m (k + minExponent) := by
  have hsize : fractionSize = 2 ^ 52 := rfl
  have hraw : (ofMagnitude false (k * fractionSize + m)).bits.toNat = k * 2 ^ 52 + m := by
    simp only [ofMagnitude, hsize]
    rw [UInt64.toNat_ofNat']
    simp only [Bool.false_eq_true, if_false, Nat.zero_add]
    exact Nat.mod_eq_of_lt (by omega)
  have hneg : decide (1 <<< 63 ≤ k * 2 ^ 52 + m) = false := decide_eq_false (by omega)
  unfold value
  rw [hraw]
  simp only [hneg, hsize, topField]
  rcases lt_or_ge m (2 ^ 52) with hlow | hhigh
  · obtain rfl : k = 0 := hk.resolve_right (by omega)
    have hfield : (0 * 2 ^ 52 + m) / 2 ^ 52 % 2048 = 0 := by omega
    have hfraction : (0 * 2 ^ 52 + m) % 2 ^ 52 = m := by omega
    rw [hfield, hfraction, if_neg (by decide), if_pos rfl, if_neg (by omega), Int.natCast_zero, Int.zero_add]
  rcases eq_or_ne m (2 ^ 53) with rfl | hne
  · have hfield : (k * 2 ^ 52 + 2 ^ 53) / 2 ^ 52 % 2048 = k + 2 := by omega
    have hfraction : (k * 2 ^ 52 + 2 ^ 53) % 2 ^ 52 = 0 := by omega
    rw [hfield, hfraction, if_neg (by omega), if_neg (by omega), if_pos rfl]
    exact congrArg₂ (Value.finite false) (Nat.add_zero _) (by push_cast; omega)
  · have hfield : (k * 2 ^ 52 + m) / 2 ^ 52 % 2048 = k + 1 := by omega
    have hfraction : (k * 2 ^ 52 + m) % 2 ^ 52 = m - 2 ^ 52 := by omega
    rw [hfield, hfraction, if_neg (by omega), if_neg (by omega), if_neg hne]
    exact congrArg₂ (Value.finite false) (by omega) (by push_cast; omega)

theorem standsFor_ofMagnitude {r : ℚ} {m : ℕ} {e : ℤ} (h : Nearest r m e) (he : e ≤ 970) :
    (ofMagnitude false ((e - minExponent).toNat * fractionSize + m)).StandsFor (m * 2 ^ e) := by
  have hmin := h.minExponent_le
  have hk : (e - minExponent).toNat = 0 ∨ 2 ^ 52 ≤ m := h.le_significand.imp (by omega) id
  have hlt : (e - minExponent).toNat < 2045 := by
    simp only [minExponent] at hmin ⊢
    omega
  have hexp : ((e - minExponent).toNat : ℤ) + minExponent = e := by omega
  have hv := value_ofMagnitude h.significand_le hk hlt
  split at hv
  case isTrue hm =>
    refine ⟨_, _, hv, ?_⟩
    rw [hm, show ((e - minExponent).toNat : ℤ) + 1 + minExponent = e + 1 by omega, zpow_add₀ two_ne_zero]
    push_cast
    ring
  case isFalse => exact ⟨_, _, hv, by rw [hexp]⟩

theorem standsFor_zero : (zero false).StandsFor 0 :=
  ⟨0, minExponent, by decide, by simp⟩

/-- The exponent and the significand that `nearest` computes are the right ones. -/
theorem nearest_halfEven {num den : ℕ} (hn : 0 < num) (hd : 0 < den) {e : ℤ}
    (he : e = max minExponent (log2Quotient num den - 52)) :
    Nearest (num / den) (Rounding.halfEven (num <<< (-e).toNat) (den <<< e.toNat)) e := by
  obtain ⟨hlow, hhigh⟩ := log2Quotient_spec hn hd
  have hu := two_zpow_pos e
  have hden : 0 < den <<< e.toNat := by
    rw [Nat.shiftLeft_eq]
    positivity
  have hden' : (0 : ℚ) < (den <<< e.toNat : ℕ) := by exact_mod_cast hden
  obtain ⟨h, hh⟩ : ∃ h, h = Rounding.halfEven (num <<< (-e).toNat) (den <<< e.toNat) := ⟨_, rfl⟩
  have hle : (2 * ((den <<< e.toNat : ℕ) * h) : ℚ) ≤ 2 * (num <<< (-e).toNat : ℕ) + (den <<< e.toNat : ℕ) := by
    rw [hh]
    exact_mod_cast Rounding.two_mul_halfEven_le (num <<< (-e).toNat) hden
  have hge : (2 * (num <<< (-e).toNat : ℕ) : ℚ) ≤ 2 * ((den <<< e.toNat : ℕ) * h) + (den <<< e.toNat : ℕ) := by
    rw [hh]
    exact_mod_cast Rounding.le_two_mul_halfEven (num <<< (-e).toNat) hden
  have hquot : ((num <<< (-e).toNat : ℕ) : ℚ) = num / den / 2 ^ e * (den <<< e.toNat : ℕ) := by
    rw [← cast_shiftLeft_div, div_mul_cancel₀ _ hden'.ne']
  rw [hquot] at hle hge
  have hle : (h : ℚ) ≤ num / den / 2 ^ e + 1 / 2 := by
    refine le_of_mul_le_mul_left ?_ (mul_pos two_pos hden')
    linarith
  have hge : num / den / 2 ^ e - 1 / 2 ≤ (h : ℚ) := by
    refine le_of_mul_le_mul_left ?_ (mul_pos two_pos hden')
    linarith
  rw [← hh]
  refine ⟨by omega, ?_, ?_, ?_⟩
  · calc (num / den : ℚ) < 2 ^ (log2Quotient num den + 1) := hhigh
      _ ≤ 2 ^ (53 + e) := zpow_le_zpow_right₀ one_le_two (by omega)
      _ = 2 ^ 53 * 2 ^ e := by rw [zpow_add₀ two_ne_zero]; norm_cast
  · rcases le_total (log2Quotient num den - 52) minExponent with hm | hm
    · exact .inl (by omega)
    · refine .inr ?_
      calc (2 ^ 52 * 2 ^ e : ℚ) = 2 ^ (52 + e) := by rw [zpow_add₀ two_ne_zero]; norm_cast
        _ ≤ 2 ^ log2Quotient num den := zpow_le_zpow_right₀ one_le_two (by omega)
        _ ≤ num / den := hlow
  · rw [abs_le]
    have hr : (num / den : ℚ) = num / den / 2 ^ e * 2 ^ e := (div_mul_cancel₀ _ hu.ne').symm
    have h₁ := mul_le_mul_of_nonneg_right hle hu.le
    have h₂ := mul_le_mul_of_nonneg_right hge hu.le
    constructor <;> linarith

/-- The number nearest to a quotient that is not too great. -/
theorem standsFor_nearest (num : ℕ) {den : ℕ} (hd : 0 < den) (hb : (num / den : ℚ) ≤ 2 ^ 200) :
    ∃ q : ℚ, IsRounding (num / den) q ∧ (nearest false num den).StandsFor q := by
  rcases Nat.eq_zero_or_pos num with rfl | hn
  · have h : Nearest (0 / den) 0 minExponent := ⟨le_rfl, by simp; positivity, .inl rfl, by simp; positivity⟩
    refine ⟨0, ⟨0, minExponent, by simpa using h, by simp⟩, ?_⟩
    simpa only [nearest, if_pos] using standsFor_zero
  obtain ⟨e, he⟩ : ∃ e, e = max minExponent (log2Quotient num den - 52) := ⟨_, rfl⟩
  have h := nearest_halfEven hn hd he
  have hle : e ≤ 970 := by
    by_contra hc
    have hpow : (2 : ℚ) ^ 200 < 2 ^ 52 * 2 ^ e := by
      calc (2 : ℚ) ^ 200 = 2 ^ (200 : ℤ) := (zpow_natCast 2 200).symm
        _ < 2 ^ (52 + e) := zpow_lt_zpow_right₀ one_lt_two (by omega)
        _ = 2 ^ 52 * 2 ^ e := by rw [zpow_add₀ two_ne_zero]; norm_cast
    rcases h.le with hm | hm
    · simp only [minExponent] at hm
      omega
    · linarith
  refine ⟨_, ⟨_, e, h, rfl⟩, ?_⟩
  have hs := standsFor_ofMagnitude h hle
  have hmin := h.minExponent_le
  have hsig := h.significand_le
  unfold nearest
  rw [if_neg hn.ne', ← he]
  dsimp only
  rw [if_neg]
  · exact hs
  · have hsize : fractionSize = 2 ^ 52 := rfl
    rw [hsize, topField]
    have : (e - minExponent).toNat ≤ 2044 := by
      simp only [minExponent] at hmin ⊢
      omega
    omega

end SimKernel.Binary64
