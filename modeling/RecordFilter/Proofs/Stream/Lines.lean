import RecordFilter.Stream.Lines
import Mathlib.Data.List.Basic

namespace RecordFilter.Stream

/-! # Lines and line feeds

The lines of an input are the pieces between its line feeds (`lines_eq`): each piece in front of a line feed without one
carriage return at its end, and the last piece as it is, if it is not empty. So a line feed cuts an input in two, whose
lines come one after the other (`lines_append_lineFeed`).
-/

/-- A piece in front of a line feed, without one carriage return at its end. -/
def chomp (piece : List UInt8) : List UInt8 :=
  if piece.getLast? = some carriageReturn then piece.dropLast else piece

/-- What stands between the line feeds of an input, in front of the first and behind the last. -/
def pieces (input : List UInt8) : List (List UInt8) := input.splitOn lineFeed

theorem pieces_ne_nil (input : List UInt8) : pieces input ≠ [] := List.splitOn_ne_nil _ _

theorem pieces_append (a b : List UInt8) : pieces (a ++ lineFeed :: b) = pieces a ++ pieces b :=
  List.splitOnP_append_cons _ _ (by decide)

theorem pieces_of_notMem {piece : List UInt8} (h : lineFeed ∉ piece) : pieces piece = [piece] := by
  apply List.splitOnP_eq_singleton
  intro b hb
  have hne : b ≠ lineFeed := by
    rintro rfl
    exact h hb
  simpa using hne

/-- Induction over an input from the end, piece by piece. -/
theorem pieces_induction {motive : List UInt8 → Prop} (last : ∀ piece, lineFeed ∉ piece → motive piece)
    (front : ∀ piece b, lineFeed ∉ piece → motive b → motive (piece ++ lineFeed :: b)) (input : List UInt8) :
    motive input := by
  generalize hn : input.length = n
  induction n using Nat.strongRecOn generalizing input with
  | ind n ih =>
    by_cases h : lineFeed ∈ input
    · obtain ⟨piece, b, rfl, hpiece⟩ := List.eq_append_cons_of_mem h
      have hlt : b.length < n := by
        rw [← hn, List.length_append, List.length_cons]
        omega
      exact front piece b hpiece (ih b.length hlt b rfl)
    · exact last input h

/-- There is one piece more than there are line feeds. -/
theorem length_pieces (input : List UInt8) : (pieces input).length = input.count lineFeed + 1 := by
  induction input using pieces_induction with
  | last piece h => rw [pieces_of_notMem h, List.count_eq_zero.2 h, List.length_singleton]
  | front piece b h ih =>
    have hcount : piece.count lineFeed = 0 := List.count_eq_zero.2 h
    rw [pieces_append, List.length_append, pieces_of_notMem h, ih, List.count_append, hcount, List.count_cons_self,
      List.length_singleton]
    omega

theorem endLine_reverse (piece : List UInt8) : endLine piece.reverse = chomp piece := by
  rcases List.eq_nil_or_concat' piece with rfl | ⟨front, b, rfl⟩
  · rfl
  · by_cases hb : b = carriageReturn
    · simp [endLine, chomp, hb]
    · simp [endLine, chomp, hb]

theorem linesAfter_of_notMem {piece : List UInt8} (h : lineFeed ∉ piece) (current : List UInt8) :
    linesAfter current piece = linesAfter (piece.reverse ++ current) [] := by
  induction piece generalizing current with
  | nil => rfl
  | cons b piece ih =>
    have hcons : lineFeed ≠ b ∧ lineFeed ∉ piece := by simpa using h
    have hnext : linesAfter current (b :: piece) = linesAfter (b :: current) piece := by
      rw [linesAfter, if_neg hcons.1.symm]
    rw [hnext, ih hcons.2, List.reverse_cons, List.append_assoc]
    rfl

/-- A piece in front of a line feed is a line. -/
theorem linesAfter_append {piece : List UInt8} (h : lineFeed ∉ piece) (current b : List UInt8) :
    linesAfter current (piece ++ lineFeed :: b) = endLine (piece.reverse ++ current) :: lines b := by
  induction piece generalizing current with
  | nil =>
    rw [List.nil_append, linesAfter, if_pos rfl]
    rfl
  | cons c piece ih =>
    have hcons : lineFeed ≠ c ∧ lineFeed ∉ piece := by simpa using h
    rw [List.cons_append, linesAfter, if_neg hcons.1.symm, ih hcons.2]
    simp

theorem lines_append_of_notMem {piece : List UInt8} (h : lineFeed ∉ piece) (b : List UInt8) :
    lines (piece ++ lineFeed :: b) = chomp piece :: lines b := by
  rw [lines, linesAfter_append h, List.append_nil, endLine_reverse]

theorem lines_of_notMem {piece : List UInt8} (h : lineFeed ∉ piece) :
    lines piece = if piece = [] then [] else [piece] := by
  rw [lines, linesAfter_of_notMem h]
  simp [linesAfter]

/-- The lines of an input by its pieces: all but the last are chomped, and the last is left out if it is empty. -/
theorem lines_eq (input : List UInt8) :
    lines input = (pieces input).dropLast.map chomp ++ (pieces input).getLast?.toList.filter (· ≠ []) := by
  induction input using pieces_induction with
  | last piece h =>
    rw [lines_of_notMem h, pieces_of_notMem h]
    by_cases hpiece : piece = []
    · simp [hpiece]
    · simp [hpiece]
  | front piece b h ih =>
    have hpieces : pieces (piece ++ lineFeed :: b) = piece :: pieces b := by
      rw [pieces_append, pieces_of_notMem h]
      rfl
    rw [lines_append_of_notMem h, hpieces, ih, List.dropLast_cons_of_ne_nil (pieces_ne_nil b), List.getLast?_cons,
      List.map_cons]
    cases hlast : (pieces b).getLast? with
    | none => exact absurd (List.getLast?_eq_none_iff.1 hlast) (pieces_ne_nil b)
    | some last => rfl

/-- A line feed cuts an input in two. In front of it each piece is a line, also an empty one. -/
theorem lines_append_lineFeed (a b : List UInt8) :
    lines (a ++ lineFeed :: b) = (pieces a).map chomp ++ lines b := by
  have hlast : (pieces a ++ pieces b).getLast? = (pieces b).getLast? := by
    cases hlast : (pieces b).getLast? with
    | none => exact absurd (List.getLast?_eq_none_iff.1 hlast) (pieces_ne_nil b)
    | some last => rw [List.getLast?_append, hlast, Option.some_or]
  rw [lines_eq, lines_eq b, pieces_append, List.dropLast_append_of_ne_nil (pieces_ne_nil b), hlast, List.map_append,
    List.append_assoc]

end RecordFilter.Stream
