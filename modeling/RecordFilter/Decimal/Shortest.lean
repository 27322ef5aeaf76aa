import RecordFilter.Decimal.Basic
import RecordFilter.Text.Numeral

namespace RecordFilter

/-! # The shortest decimal of a double precision number

Of the decimals that read back as the number, those with the fewest digits; of these the nearest, and of two
equally near the one whose last digit is even.
-/

namespace Binary64

/-- The exponent `k` with `10 ^ (k - 1) ≤ |x| < 10 ^ k`, for `x` other than zero. -/
def magnitude (x : Binary64) : Int :=
  (Text.digits (x.units * Decimal.powerOfTen 400 / unitsPerOne)).length - 400

/-- The two neighbours of `|x|` among the multiples of `10 ^ exponent`, the nearer one first. The upper one may carry
into a new place and then ends in a zero, which is dropped. -/
def neighbours (x : Binary64) (exponent : Int) : List Decimal :=
  let num := x.units * Decimal.powerOfTen (-exponent)
  let den := Decimal.powerOfTen exponent * unitsPerOne
  let below : Decimal := ⟨num / den, exponent⟩
  let above : Decimal := Decimal.dropZero ⟨num / den + 1, exponent⟩
  if Decimal.halfEven num den = num / den then [below, above] else [above, below]

/-- The nearest decimal that has `places` digits and reads back as `x`, if there is one. -/
def decimalOf? (x : Binary64) (places : Nat) : Option Decimal :=
  (x.neighbours (x.magnitude - places)).find? fun d => d.toBinary64? x.negative = some x

/-- All digits of `x`. -/
def exact (x : Binary64) : Decimal := ⟨x.units * Nat.pow 5 1074, -1074⟩

/-- The shortest decimal of `|x|`. Seventeen digits tell any two numbers apart. -/
def shortest (x : Binary64) : Decimal :=
  ((List.range' 1 17).findSome? x.decimalOf?).getD x.exact

end Binary64

end RecordFilter
