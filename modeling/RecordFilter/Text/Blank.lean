namespace RecordFilter.Text

/-! # Blank characters

The property `White_Space`: what is trimmed around a numeral and what makes a line of records blank.
-/

/-- The code points of `White_Space`, as closed ranges in order. -/
def blankRanges : List (Nat × Nat) :=
  [(0x09, 0x0D), (0x20, 0x20), (0x85, 0x85), (0xA0, 0xA0), (0x1680, 0x1680), (0x2000, 0x200A),
   (0x2028, 0x2029), (0x202F, 0x202F), (0x205F, 0x205F), (0x3000, 0x3000)]

/-- Whether a character is blank. -/
def isBlank (c : Char) : Bool :=
  blankRanges.any fun (first, last) => first ≤ c.toNat && c.toNat ≤ last

/-- A text without the blanks at its two ends. -/
def trim (s : List Char) : List Char :=
  ((s.dropWhile isBlank).reverse.dropWhile isBlank).reverse

/-- The property has twenty-five members. -/
example : (blankRanges.map fun (first, last) => last + 1 - first).sum = 25 := by decide

end RecordFilter.Text
