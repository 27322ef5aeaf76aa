namespace RecordFilter.Text

/-! # Lengths in UTF-8 -/

/-- The bytes of a text in UTF-8. -/
def byteLength : List Char → Nat
  | [] => 0
  | c :: s => c.utf8Size + byteLength s

theorem byteLength_append (s t : List Char) : byteLength (s ++ t) = byteLength s + byteLength t := by
  induction s with
  | nil => simp [byteLength]
  | cons c s ih =>
    rw [List.cons_append, byteLength, byteLength, ih]
    omega

/-- The bytes of a text are those of the string. -/
theorem byteLength_eq_utf8ByteSize (s : List Char) : byteLength s = (String.ofList s).utf8ByteSize := by
  induction s with
  | nil => rfl
  | cons c s ih =>
    rw [byteLength, ih, String.ofList_cons, String.utf8ByteSize_append, String.utf8ByteSize_singleton]

end RecordFilter.Text
