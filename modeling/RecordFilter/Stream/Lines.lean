namespace RecordFilter.Stream

/-! # Lines of bytes

A line ends at a line feed, which is no part of it, and neither is one carriage return right before the line feed. What
is left after the last line feed is a line if it is not empty.
-/

def lineFeed : UInt8 := 10

def carriageReturn : UInt8 := 13

/-- A line that ends at a line feed, from its bytes in reverse. -/
def endLine : List UInt8 → List UInt8
  | [] => []
  | b :: rest => if b = carriageReturn then rest.reverse else (b :: rest).reverse

/-- The lines of an input that follows on some bytes of a line, given in reverse. -/
def linesAfter (current : List UInt8) : List UInt8 → List (List UInt8)
  | [] => if current.isEmpty then [] else [current.reverse]
  | b :: rest => if b = lineFeed then endLine current :: linesAfter [] rest else linesAfter (b :: current) rest

/-- The lines of an input. -/
def lines (input : List UInt8) : List (List UInt8) := linesAfter [] input

end RecordFilter.Stream
