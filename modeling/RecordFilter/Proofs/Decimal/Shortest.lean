import RecordFilter.Decimal.Shortest
import Mathlib.Algebra.Group.Nat.Defs

namespace RecordFilter

/-! # Shortest decimals read back

The decimal that a number is written by is found by trying, so it reads back as the number; and so does the decimal of all
its digits, which is written if none is found. Whether zeros are written out or counted by the exponent is the same to the
reader.
-/

namespace Binary64

/-- Only the quotient matters, not the fraction that writes it. -/
theorem ofRatio?_scale (negative : Bool) (num den : Nat) {c : Nat} (h : 0 < c) :
    ofRatio? negative (num * c) (den * c) = ofRatio? negative num den := by
  have hunits := nearestUnits_scale num den c h
  unfold ofRatio?
  split
  · next hlt =>
    rw [dif_pos (hunits ▸ hlt)]
    simp only [hunits]
  · next hlt => rw [dif_neg (hunits ▸ hlt)]

theorem eq_zero_of_units_eq_zero {x : Binary64} (h : x.units = 0) : x = zero x.negative := by
  obtain ⟨negative, units, _, _⟩ := x
  cases h
  rfl

end Binary64

namespace Decimal

theorem powerOfTen_natCast (n : Nat) : powerOfTen n = 10 ^ n := by
  rw [powerOfTen, Int.toNat_natCast]
  rfl

theorem powerOfTen_neg_natCast (n : Nat) : powerOfTen (-n) = 1 := by
  rw [powerOfTen, Int.toNat_neg_natCast]

theorem toBinary64?_of_significand_eq_zero (negative : Bool) {d : Decimal} (h : d.significand = 0) :
    d.toBinary64? negative = some (.zero negative) := by
  rw [toBinary64?, if_pos h]

/-- A decimal that is neither zero nor very large or small is rounded. -/
theorem toBinary64?_eq_ofRatio? (negative : Bool) {d : Decimal} (hzero : d.significand ≠ 0) (hlarge : d.exponent < 310)
    (hsmall : -400 ≤ d.exponent + (d.significand.log2 + 1)) :
    d.toBinary64? negative =
      Binary64.ofRatio? negative (d.significand * powerOfTen d.exponent * Binary64.unitsPerOne)
        (powerOfTen (-d.exponent)) := by
  rw [toBinary64?, if_neg hzero, if_neg (by omega), if_neg (by omega)]

/-- Zeros that the exponent counts may as well be written out, and one behind the point. -/
theorem toBinary64?_writtenOut (negative : Bool) (m : Nat) {k : Nat} (hk : k < 310) :
    toBinary64? negative ⟨m * 10 ^ k * 10, -1⟩ = toBinary64? negative ⟨m, k⟩ := by
  by_cases hm : m = 0
  · have hwritten : m * 10 ^ k * 10 = 0 := by rw [hm, Nat.zero_mul, Nat.zero_mul]
    rw [toBinary64?_of_significand_eq_zero _ hwritten, toBinary64?_of_significand_eq_zero _ hm]
  · have hpow : 0 < 10 ^ k := Nat.pow_pos (by decide)
    have hwritten : m * 10 ^ k * 10 ≠ 0 := by
      apply Nat.mul_ne_zero _ (by decide)
      exact Nat.mul_ne_zero hm (by omega)
    have hone : powerOfTen (-1) = 1 := rfl
    have hten : powerOfTen 1 = 10 := rfl
    rw [toBinary64?_eq_ofRatio? negative hwritten (by dsimp only; omega) (by dsimp only; omega),
      toBinary64?_eq_ofRatio? negative hm (by dsimp only; omega) (by dsimp only; omega)]
    simp only [hone, Int.neg_neg, hten, powerOfTen_natCast, powerOfTen_neg_natCast, Nat.mul_one]
    have hswap : m * 10 ^ k * 10 * Binary64.unitsPerOne = m * 10 ^ k * Binary64.unitsPerOne * 10 :=
      Nat.mul_right_comm _ _ _
    rw [hswap]
    exact Binary64.ofRatio?_scale negative _ 1 (by decide)

end Decimal

namespace Binary64

theorem toBinary64?_of_decimalOf?_eq {x : Binary64} {places : Nat} {d : Decimal} (h : x.decimalOf? places = some d) :
    d.toBinary64? x.negative = some x := by
  simpa using List.find?_some h

/-- A number of units of `2 ^ -n` has at most `n` places behind the point. -/
theorem toBinary64?_allDigits {x : Binary64} (h : x.units ≠ 0) {n : Nat} (hunit : unitsPerOne = Nat.pow 2 n) :
    Decimal.toBinary64? x.negative ⟨x.units * Nat.pow 5 n, -n⟩ = some x := by
  rw [Nat.pow_eq] at hunit ⊢
  have hpos : 0 < x.units := Nat.pos_of_ne_zero h
  have hsignificand : 2 ^ n ≤ x.units * 5 ^ n :=
    Nat.le_trans (Nat.pow_le_pow_left (by decide) n) (Nat.le_mul_of_pos_left _ hpos)
  have hne : x.units * 5 ^ n ≠ 0 := by
    have htwo : 0 < 2 ^ n := Nat.two_pow_pos n
    omega
  -- there are as many digits as the exponent takes away
  have hlog : n ≤ (x.units * 5 ^ n).log2 := (Nat.le_log2 hne).2 hsignificand
  have hscale : x.units * 5 ^ n * unitsPerOne = x.units * 10 ^ n := by
    rw [hunit, Nat.mul_assoc, ← Nat.mul_pow]
  rw [Decimal.toBinary64?_eq_ofRatio? _ hne (by dsimp only; omega) (by dsimp only; omega)]
  simp only [Int.neg_neg, Decimal.powerOfTen_natCast, Decimal.powerOfTen_neg_natCast, Nat.mul_one, hscale]
  calc ofRatio? x.negative (x.units * 10 ^ n) (10 ^ n)
      = ofRatio? x.negative (x.units * 10 ^ n) (1 * 10 ^ n) := by rw [Nat.one_mul]
    _ = some x := by rw [ofRatio?_scale _ _ _ (Nat.pow_pos (by decide)), ofRatio?_units]

/-- The decimal that a number other than zero is written by reads back as the number. -/
theorem toBinary64?_shortest {x : Binary64} (h : x.units ≠ 0) : x.shortest.toBinary64? x.negative = some x := by
  cases hfound : (List.range' 1 17).findSome? x.decimalOf? with
  | none =>
    have hunit : unitsPerOne = Nat.pow 2 1074 := by
      unfold unitsPerOne
      rfl
    have hshortest : x.shortest = ⟨x.units * Nat.pow 5 1074, -(1074 : Nat)⟩ := by
      rw [shortest, hfound, Option.getD_none]
      rfl
    have hread := toBinary64?_allDigits h hunit
    rw [hshortest]
    exact hread
  | some d =>
    rw [shortest, hfound, Option.getD_some]
    obtain ⟨places, _, hplaces⟩ := List.exists_of_findSome?_eq_some hfound
    exact toBinary64?_of_decimalOf?_eq hplaces

theorem significand_shortest_ne_zero {x : Binary64} (h : x.units ≠ 0) : x.shortest.significand ≠ 0 := by
  intro hzero
  have hread := toBinary64?_shortest h
  rw [Decimal.toBinary64?_of_significand_eq_zero _ hzero] at hread
  have hunits := congrArg Binary64.units (Option.some.inj hread)
  exact h hunits.symm

end Binary64

end RecordFilter
