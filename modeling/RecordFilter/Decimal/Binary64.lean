import RecordFilter.Decimal.Rounding

namespace RecordFilter

/-! # Finite double precision numbers

A finite number of the format is a sign and a whole number of units of `2 ^ -1074`, of which at most the leading
53 bits are not zero. The two zeros differ by their sign.
-/

namespace Binary64

/-- How many units make one. -/
def unitsPerOne : Nat := Nat.pow 2 1074

/-- The least number of units that is too large to be finite: `2 ^ 1024` in units. -/
def unitsLimit : Nat := Nat.pow 2 2098

/-- The last place that a number of this many units can have. -/
def lastPlace (units : Nat) : Nat := Nat.pow 2 (units.log2 - 52)

end Binary64

/-- A finite double precision number. -/
structure Binary64 where
  /-- Whether the sign is minus. -/
  negative : Bool
  /-- The magnitude, in units of `2 ^ -1074`. -/
  units : Nat
  units_lt : units < Binary64.unitsLimit
  lastPlace_dvd : Binary64.lastPlace units ∣ units
deriving DecidableEq

namespace Binary64

theorem pow_two_pos (n : Nat) : 0 < Nat.pow 2 n := Nat.two_pow_pos n

theorem unitsLimit_pos : 0 < unitsLimit := by
  unfold unitsLimit
  generalize 2098 = n
  exact pow_two_pos n

theorem lastPlace_pos (units : Nat) : 0 < lastPlace units := pow_two_pos _

/-- The multiple of the last place that is nearest to `num / den`. -/
def nearestUnits (num den : Nat) : Nat :=
  let place := lastPlace (num / den)
  Decimal.halfEven num (den * place) * place

/-- At most 53 leading bits are not zero, also where rounding carries into a new place. -/
theorem lastPlace_nearestUnits_dvd (num den : Nat) :
    lastPlace (nearestUnits num den) ∣ nearestUnits num den := by
  let shift := (num / den).log2 - 52
  let significand := Decimal.halfEven num (den * 2 ^ shift)
  have hle : significand ≤ 2 ^ 53 := by
    have hfloor : num / den < 2 ^ (53 + shift) :=
      Nat.lt_of_lt_of_le Nat.lt_log2_self (Nat.pow_le_pow_right (by decide) (by omega))
    have hquot : num / (den * 2 ^ shift) < 2 ^ 53 := by
      rw [← Nat.div_div_eq_div_mul]
      exact Nat.div_lt_of_lt_mul (by rwa [← Nat.pow_add, Nat.add_comm])
    have := Decimal.halfEven_le_succ num (den * 2 ^ shift)
    omega
  show 2 ^ ((significand * 2 ^ shift).log2 - 52) ∣ significand * 2 ^ shift
  by_cases htop : significand = 2 ^ 53
  · rw [htop, ← Nat.pow_add, Nat.log2_two_pow]
    exact Nat.pow_dvd_pow 2 (by omega)
  · by_cases hzero : significand * 2 ^ shift = 0
    · rw [hzero]
      exact Nat.dvd_zero _
    · have hlog : (significand * 2 ^ shift).log2 < 53 + shift := by
        rw [Nat.log2_lt hzero, Nat.pow_add]
        exact Nat.mul_lt_mul_of_pos_right (by omega) (Nat.two_pow_pos shift)
      exact Nat.dvd_trans (Nat.pow_dvd_pow 2 (by omega)) (Nat.dvd_mul_left _ _)

/-- The number nearest to `num / den` units, ties to even; none if that is too large to be finite. -/
def ofRatio? (negative : Bool) (num den : Nat) : Option Binary64 :=
  if h : nearestUnits num den < unitsLimit then
    some ⟨negative, nearestUnits num den, h, lastPlace_nearestUnits_dvd num den⟩
  else none

/-- The number nearest to an integer. -/
def ofInt? (n : Int) : Option Binary64 :=
  ofRatio? (decide (n < 0)) (n.natAbs * unitsPerOne) 1

/-- The zero of a sign. -/
def zero (negative : Bool) : Binary64 :=
  ⟨negative, 0, unitsLimit_pos, Nat.dvd_zero _⟩

/-- Only the quotient matters, not the fraction that writes it. -/
theorem nearestUnits_scale (num den c : Nat) (h : 0 < c) :
    nearestUnits (num * c) (den * c) = nearestUnits num den := by
  simp only [nearestUnits, Nat.mul_div_mul_right _ _ h]
  rw [Nat.mul_right_comm den c, Decimal.halfEven_scale _ _ _ h]

/-- Each number is the one nearest to itself. -/
theorem ofRatio?_units (x : Binary64) : ofRatio? x.negative x.units 1 = some x := by
  have hself : nearestUnits x.units 1 = x.units := by
    obtain ⟨k, hk⟩ := x.lastPlace_dvd
    simp only [nearestUnits, Nat.div_one, Nat.one_mul]
    conv => lhs; arg 1; arg 1; rw [hk, Nat.mul_comm]
    rw [Decimal.halfEven_mul _ _ (lastPlace_pos _), Nat.mul_comm]
    exact hk.symm
  obtain ⟨negative, units, hlt, hdvd⟩ := x
  simp only [ofRatio?, hself, dif_pos hlt]

end Binary64

end RecordFilter
