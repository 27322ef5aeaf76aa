import RecordFilter.Decimal.Binary64

namespace RecordFilter.Json

/-! # JSON values

An object is the list of its members in order; its keys are distinct wherever the value was read from a text.
-/

namespace Number

/-- The least integer that is kept exactly. -/
def intMin : Int := -9223372036854775808

/-- The first integer too large to be kept exactly. -/
def intLimit : Int := 18446744073709551616

end Number

/-- A number: an integer of the range that is kept exactly, or a finite double precision number. -/
inductive Number where
  | int (n : Int) (inRange : Number.intMin ≤ n ∧ n < Number.intLimit)
  | float (x : Binary64)
deriving DecidableEq

/-- The number of an integer, if it is one that is kept exactly. -/
def Number.ofInt? (n : Int) : Option Number :=
  if h : Number.intMin ≤ n ∧ n < Number.intLimit then some (.int n h) else none

/-- A JSON value. -/
inductive Value where
  | null
  | bool (b : Bool)
  | number (n : Number)
  | string (s : String)
  | array (items : List Value)
  | object (members : List (String × Value))

end RecordFilter.Json
