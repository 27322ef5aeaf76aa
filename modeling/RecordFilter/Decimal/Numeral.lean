import RecordFilter.Decimal.Basic
import RecordFilter.Text.Numeral

namespace RecordFilter

/-! # Numerals of double precision numbers

An optional sign; digits with at most one point among, before or after them; and, after a letter `e` of either case,
an exponent with an optional sign. This is wider than a JSON number: `+5`, `.5`, `1.` and `007` are numerals here.
-/

/-- The decimal of a numeral without sign. -/
def Decimal.ofText? (s : List Char) : Option Decimal :=
  let inMantissa := fun c => c != 'e' && c != 'E'
  let mantissa := s.takeWhile inMantissa
  let whole := mantissa.takeWhile (· != '.')
  let fraction := (mantissa.dropWhile (· != '.')).drop 1
  let exponent? :=
    match s.dropWhile inMantissa with
    | [] => some 0
    | _ :: e => Text.integer? e
  match Text.natural? (whole ++ fraction), exponent? with
  | some n, some e => some ⟨n, e - fraction.length⟩
  | _, _ => none

/-- The number nearest to what a numeral denotes, if it is finite. -/
def Binary64.ofText? : List Char → Option Binary64
  | '-' :: s => (Decimal.ofText? s).bind (Decimal.toBinary64? true)
  | '+' :: s => (Decimal.ofText? s).bind (Decimal.toBinary64? false)
  | s => (Decimal.ofText? s).bind (Decimal.toBinary64? false)

end RecordFilter
