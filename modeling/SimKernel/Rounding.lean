/-!
# Rounding a quotient

The whole number nearest to a quotient of natural numbers, with the two usual ways to break a tie. With ties to even it
lies within half a unit of the quotient (`two_mul_halfEven_le`, `le_two_mul_halfEven`), and with ties upwards it is at most
half a unit greater (`two_mul_halfUp_le`).
-/

namespace SimKernel.Rounding

/-- The whole number nearest to `num / den`, the even one at a tie. -/
def halfEven (num den : Nat) : Nat :=
  let q := num / den
  let r := num % den
  if den < 2 * r ∨ (2 * r = den ∧ q % 2 = 1) then q + 1 else q

/-- The whole number nearest to `num / den`, the greater one at a tie. -/
def halfUp (num den : Nat) : Nat :=
  (2 * num + den) / (2 * den)

/-- The rounded quotient is at most half a unit too great. -/
theorem two_mul_halfEven_le (num : Nat) {den : Nat} (h : 0 < den) :
    2 * (den * halfEven num den) ≤ 2 * num + den := by
  have hd := Nat.div_add_mod num den
  have hm := Nat.mod_lt num h
  simp only [halfEven]
  split
  · rw [Nat.mul_add, Nat.mul_one]
    omega
  · omega

/-- The rounded quotient is at most half a unit too small. -/
theorem le_two_mul_halfEven (num : Nat) {den : Nat} (h : 0 < den) :
    2 * num ≤ 2 * (den * halfEven num den) + den := by
  have hd := Nat.div_add_mod num den
  have hm := Nat.mod_lt num h
  simp only [halfEven]
  split
  · rw [Nat.mul_add, Nat.mul_one]
    omega
  · omega

theorem two_mul_halfUp_le (num den : Nat) : 2 * (den * halfUp num den) ≤ 2 * num + den := by
  have h := Nat.div_mul_le_self (2 * num + den) (2 * den)
  rw [show (2 * num + den) / (2 * den) * (2 * den) = 2 * (den * halfUp num den) by
    rw [halfUp, Nat.mul_comm, Nat.mul_assoc]] at h
  exact h

end SimKernel.Rounding
