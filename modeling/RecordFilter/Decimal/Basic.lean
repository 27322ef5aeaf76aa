import RecordFilter.Decimal.Binary64

namespace RecordFilter

/-! # Decimals: a whole number times a power of ten -/

/-- The number `significand * 10 ^ exponent`. -/
structure Decimal where
  significand : Nat
  exponent : Int
deriving DecidableEq

namespace Decimal

/-- The power of ten of a natural exponent; one for a negative exponent. -/
def powerOfTen (exponent : Int) : Nat := Nat.pow 10 exponent.toNat

/-- The double precision number nearest to a signed decimal; none if it is too large to be finite.
An exponent from 310 on makes the magnitude too large, and one so small that the magnitude stays below `10 ^ -400`
makes it zero, so powers of ten are only taken of exponents of moderate size. -/
def toBinary64? (negative : Bool) (d : Decimal) : Option Binary64 :=
  if d.significand = 0 then some (.zero negative)
  else if 310 ≤ d.exponent then none
  else if d.exponent + (d.significand.log2 + 1) < -400 then some (.zero negative)
  else
    Binary64.ofRatio? negative (d.significand * powerOfTen d.exponent * Binary64.unitsPerOne)
      (powerOfTen (-d.exponent))

/-- The same number without a zero at the end of its significand, if there is one. -/
def dropZero (d : Decimal) : Decimal :=
  if d.significand % 10 = 0 then ⟨d.significand / 10, d.exponent + 1⟩ else d

end Decimal

end RecordFilter
