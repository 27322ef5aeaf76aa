namespace RecordFilter.Decimal

/-! # Rounding a quotient to a whole number -/

/-- The whole number nearest to `num / den`; of two equally near the even one. -/
def halfEven (num den : Nat) : Nat :=
  let floor := num / den
  let rest := num % den
  if 2 * rest < den then floor
  else if den < 2 * rest then floor + 1
  else floor + floor % 2

theorem le_halfEven (num den : Nat) : num / den ≤ halfEven num den := by
  grind [halfEven]

theorem halfEven_le_succ (num den : Nat) : halfEven num den ≤ num / den + 1 := by
  grind [halfEven]

/-- A whole quotient is left alone. -/
theorem halfEven_mul (n den : Nat) (h : 0 < den) : halfEven (n * den) den = n := by
  simp [halfEven, Nat.mul_div_cancel _ h, h]

/-- Only the quotient matters, not the fraction that writes it. -/
theorem halfEven_scale (num den c : Nat) (h : 0 < c) :
    halfEven (num * c) (den * c) = halfEven num den := by
  have hlt : 2 * (num % den * c) < den * c ↔ 2 * (num % den) < den := by
    rw [← Nat.mul_assoc]
    exact Nat.mul_lt_mul_right h
  have hgt : den * c < 2 * (num % den * c) ↔ den < 2 * (num % den) := by
    rw [← Nat.mul_assoc]
    exact Nat.mul_lt_mul_right h
  simp only [halfEven, Nat.mul_div_mul_right _ _ h, Nat.mul_mod_mul_right, hlt, hgt]

end RecordFilter.Decimal
