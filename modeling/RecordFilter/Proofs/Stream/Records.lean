import RecordFilter.Proofs.Json.Trailing
import RecordFilter.Proofs.Json.Writing
import RecordFilter.Proofs.Stream.Lines
import RecordFilter.Proofs.Text.Bytes
import RecordFilter.Proofs.Text.Runs
import RecordFilter.Stream.Records

namespace RecordFilter

/-! # Streams of records, line by line

A line is blank, holds a record, or fails, and it is just one of these (`line_cases`, `Rewrites.not_fails`). So
an input is rewritten line by line (`Rewrites`) up to the first line that fails, if one does (`rewrites_cases`). What
carries the law for inputs put together is that a line means the same with a carriage return at its end or without
(`Rewrites.chomp`): the last line of an input may have one, which goes once a line feed follows.
-/

namespace Stream

open Json (Value)

/-! ## Lines -/

/-- A line that is passed over: a text of which trimming leaves nothing. -/
def Blank (line : List UInt8) : Prop :=
  ∃ text, String.fromUTF8? ⟨line.toArray⟩ = some text ∧ Text.trim text.toList = []

/-- A line that holds a record: any other text that is the JSON of an object. -/
def Holds (line : List UInt8) (record : List (String × Value)) : Prop :=
  ∃ text, String.fromUTF8? ⟨line.toArray⟩ = some text ∧ Text.trim text.toList ≠ [] ∧
    Value.parse text = .ok (.object record)

/-- A line that fails, and why. -/
inductive Fails : List UInt8 → LineFault → Prop where
  | notUtf8 {line : List UInt8} (undecoded : String.fromUTF8? ⟨line.toArray⟩ = none) : Fails line .notUtf8
  | notJson {line : List UInt8} {text : String} {error : Json.ReadError Empty}
      (decoded : String.fromUTF8? ⟨line.toArray⟩ = some text) (unblank : Text.trim text.toList ≠ [])
      (unread : Value.parse text = .error error) : Fails line .notJson
  | notObject {line : List UInt8} {text : String} {v : Value}
      (decoded : String.fromUTF8? ⟨line.toArray⟩ = some text) (unblank : Text.trim text.toList ≠ [])
      (read : Value.parse text = .ok v) (other : ∀ record, v ≠ .object record) : Fails line .notObject

/-- The line of output for a record. -/
def outputLine (S : Schema) (record : List (String × Value)) : String :=
  (Value.object (S.rewriteRecord record)).text

/-- Lines of which none fails, and the lines of output for those that hold records. -/
inductive Rewrites (S : Schema) : List (List UInt8) → List String → Prop where
  | nil : Rewrites S [] []
  | blank {line : List UInt8} {rest : List (List UInt8)} {output : List String} (blank : Blank line)
      (next : Rewrites S rest output) : Rewrites S (line :: rest) output
  | record {line : List UInt8} {rest : List (List UInt8)} {output : List String} {record : List (String × Value)}
      (holds : Holds line record) (next : Rewrites S rest output) :
      Rewrites S (line :: rest) (outputLine S record :: output)

variable {S : Schema} {line : List UInt8}

theorem rewriteLine_of_blank (h : Blank line) : rewriteLine S line = .ok none := by
  obtain ⟨text, htext, hblank⟩ := h
  rw [rewriteLine, htext]
  simp only [(Text.trim_eq_nil_iff _).1 hblank, if_true]

theorem rewriteLine_of_holds {record : List (String × Value)} (h : Holds line record) :
    rewriteLine S line = .ok (some (outputLine S record)) := by
  obtain ⟨text, htext, hblank, hparse⟩ := h
  rw [rewriteLine, htext]
  simp only [readRecord, hparse, mt (Text.trim_eq_nil_iff _).2 hblank, if_false, Bool.false_eq_true]
  rfl

theorem rewriteLine_of_fails {fault : LineFault} (h : Fails line fault) : rewriteLine S line = .error fault := by
  cases h with
  | notUtf8 undecoded => rw [rewriteLine, undecoded]
  | notJson decoded unblank unread =>
    rw [rewriteLine, decoded]
    simp only [readRecord, unread, mt (Text.trim_eq_nil_iff _).2 unblank, if_false, Bool.false_eq_true]
    rfl
  | notObject decoded unblank read other =>
    rw [rewriteLine, decoded]
    simp only [readRecord, read, mt (Text.trim_eq_nil_iff _).2 unblank, if_false, Bool.false_eq_true]
    rfl

/-- Each line is blank, holds a record, or fails. -/
theorem line_cases (line : List UInt8) : Blank line ∨ (∃ record, Holds line record) ∨ ∃ fault, Fails line fault := by
  cases htext : String.fromUTF8? ⟨line.toArray⟩ with
  | none => exact Or.inr (Or.inr ⟨_, .notUtf8 htext⟩)
  | some text =>
    by_cases hblank : Text.trim text.toList = []
    · exact Or.inl ⟨text, htext, hblank⟩
    · right
      cases hparse : Value.parse text with
      | error e => exact Or.inr ⟨_, .notJson htext hblank hparse⟩
      | ok v =>
        by_cases hobject : ∃ record, v = .object record
        · obtain ⟨record, rfl⟩ := hobject
          exact Or.inl ⟨record, text, htext, hblank, hparse⟩
        · exact Or.inr ⟨_, .notObject htext hblank hparse fun record hv => hobject ⟨record, hv⟩⟩

/-- What is written for a record is a line that holds the record. -/
theorem holds_render {record : List (String × Value)} (hnest : (Value.object record).nest ≤ Json.maxNesting)
    (hdistinct : (Value.object record).Distinct) : Holds (Text.utf8 (Value.object record).render) record := by
  have htext : (Value.object record).text.toList = (Value.object record).render := String.toList_ofList
  refine ⟨(Value.object record).text, ?_, ?_, Value.parse_text hnest hdistinct⟩
  · rw [Text.fromUTF8?_eq_some_iff, htext]
  · rw [htext, ne_eq, Text.trim_eq_nil_iff]
    intro hblank
    have hbrace : Text.isBlank '{' = true := List.all_eq_true.1 hblank '{' List.mem_cons_self
    revert hbrace
    decide

/-! ## Streams -/

/-- Of lines that are rewritten none fails. -/
theorem Rewrites.not_fails {lines : List (List UInt8)} {output : List String} (h : Rewrites S lines output) :
    ∀ line ∈ lines, ∀ fault, ¬ Fails line fault := by
  induction h with
  | nil => exact fun line hline => nomatch hline
  | blank blank next ih =>
    intro line hline fault hfails
    rcases List.mem_cons.1 hline with rfl | htail
    · cases (rewriteLine_of_blank (S := S) blank).symm.trans (rewriteLine_of_fails hfails)
    · exact ih line htail fault hfails
  | record holds next ih =>
    intro line hline fault hfails
    rcases List.mem_cons.1 hline with rfl | htail
    · cases (rewriteLine_of_holds (S := S) holds).symm.trans (rewriteLine_of_fails hfails)
    · exact ih line htail fault hfails

/-- Lines that are rewritten put their output in front of that of the others, and add to the numbers of these. -/
theorem Rewrites.rewriteLines_append {lines : List (List UInt8)} {output : List String} (h : Rewrites S lines output)
    (number : Nat) (others : List (List UInt8)) :
    rewriteLines S number (lines ++ others) =
      (output ++ (rewriteLines S (number + lines.length) others).1,
        (rewriteLines S (number + lines.length) others).2) := by
  induction h generalizing number with
  | nil => rfl
  | @blank line rest output blank next ih =>
    have hnumber : number + (line :: rest).length = number + 1 + rest.length := by
      rw [List.length_cons]
      omega
    rw [hnumber, List.cons_append, rewriteLines, rewriteLine_of_blank blank]
    simp only [ih]
    rfl
  | @record line rest output record holds next ih =>
    have hnumber : number + (line :: rest).length = number + 1 + rest.length := by
      rw [List.length_cons]
      omega
    rw [hnumber, List.cons_append, rewriteLines, rewriteLine_of_holds holds]
    simp only [ih]
    rfl

theorem Rewrites.append {lines others : List (List UInt8)} {output rest : List String} (h : Rewrites S lines output)
    (hrest : Rewrites S others rest) : Rewrites S (lines ++ others) (output ++ rest) := by
  induction h with
  | nil => exact hrest
  | blank blank _ ih => exact .blank blank ih
  | record holds _ ih => exact .record holds ih

theorem Rewrites.exists_of_append {lines others : List (List UInt8)} {output : List String}
    (h : Rewrites S (lines ++ others) output) :
    ∃ front rest, output = front ++ rest ∧ Rewrites S lines front ∧ Rewrites S others rest := by
  induction lines generalizing output with
  | nil => exact ⟨[], output, rfl, .nil, h⟩
  | cons line lines ih =>
    cases h with
    | blank blank next =>
      obtain ⟨front, rest, rfl, hfront, hrest⟩ := ih next
      exact ⟨front, rest, rfl, .blank blank hfront, hrest⟩
    | record holds next =>
      obtain ⟨front, rest, rfl, hfront, hrest⟩ := ih next
      exact ⟨_ :: front, rest, rfl, .record holds hfront, hrest⟩

/-- Lines are rewritten to the end or up to the first that fails. -/
theorem rewrites_cases (S : Schema) (lines : List (List UInt8)) :
    (∃ output, Rewrites S lines output) ∨
      ∃ before line after output fault, lines = before ++ line :: after ∧ Rewrites S before output ∧
        Fails line fault := by
  induction lines with
  | nil => exact Or.inl ⟨[], .nil⟩
  | cons line lines ih =>
    rcases line_cases line with hblank | ⟨record, hholds⟩ | ⟨fault, hfails⟩
    · rcases ih with ⟨output, hall⟩ | ⟨before, line', after, output, fault, rfl, hbefore, hfails⟩
      · exact Or.inl ⟨output, .blank hblank hall⟩
      · exact Or.inr ⟨line :: before, line', after, output, fault, rfl, .blank hblank hbefore, hfails⟩
    · rcases ih with ⟨output, hall⟩ | ⟨before, line', after, output, fault, rfl, hbefore, hfails⟩
      · exact Or.inl ⟨_, .record hholds hall⟩
      · exact Or.inr ⟨line :: before, line', after, _, fault, rfl, .record hholds hbefore, hfails⟩
    · exact Or.inr ⟨[], line, lines, [], fault, rfl, .nil, hfails⟩

theorem run_of_rewrites {input : List UInt8} {output : List String} (h : Rewrites S (lines input) output) :
    run S input = (output, none) := by
  have hrun := h.rewriteLines_append 1 []
  rw [List.append_nil, rewriteLines, List.append_nil] at hrun
  exact hrun

/-- A run stops at the first line that fails, whose number it gives. -/
theorem run_of_fails {input line : List UInt8} {before after : List (List UInt8)} {output : List String}
    {fault : LineFault} (hlines : lines input = before ++ line :: after) (h : Rewrites S before output)
    (hfails : Fails line fault) : run S input = (output, some ⟨before.length + 1, fault⟩) := by
  rw [run, hlines, h.rewriteLines_append, rewriteLines, rewriteLine_of_fails hfails, Nat.add_comm, List.append_nil]

/-- All lines were rewritten if and only if no fault is given. -/
theorem exists_rewrites_iff (S : Schema) (input : List UInt8) :
    (∃ output, Rewrites S (lines input) output) ↔ (run S input).2 = none := by
  constructor
  · rintro ⟨output, h⟩
    rw [run_of_rewrites h]
  · intro hnone
    rcases rewrites_cases S (lines input) with hall | ⟨before, line, after, output, fault, hlines, h, hfails⟩
    · exact hall
    · rw [run_of_fails hlines h hfails] at hnone
      cases hnone

/-! ## Inputs put together -/

/-- The number of a fault, counted from further back. -/
def Fault.shift (count : Nat) (f : Fault) : Fault := { f with number := f.number + count }

theorem rewriteLines_shift (S : Schema) (number count : Nat) (lines : List (List UInt8)) :
    rewriteLines S (number + count) lines =
      ((rewriteLines S number lines).1, (rewriteLines S number lines).2.map (Fault.shift count)) := by
  induction lines generalizing number with
  | nil => rfl
  | cons line lines ih =>
    rw [rewriteLines, rewriteLines]
    cases rewriteLine S line with
    | error fault => rfl
    | ok out =>
      have hnumber : number + count + 1 = number + 1 + count := by omega
      simp only [hnumber, ih]

theorem chomp_cases (piece : List UInt8) : chomp piece = piece ∨ piece = chomp piece ++ [13] := by
  unfold chomp
  split
  · next hlast =>
    right
    obtain ⟨front, rfl⟩ := List.getLast?_eq_some_iff.1 hlast
    rw [List.dropLast_concat]
    rfl
  · exact Or.inl rfl

theorem Blank.chomp (h : Blank line) : Blank (chomp line) := by
  rcases chomp_cases line with heq | heq
  · rw [heq]
    exact h
  · obtain ⟨text, htext, hblank⟩ := h
    rw [heq] at htext
    obtain ⟨s, hs, hfront⟩ := Text.fromUTF8?_push_cr htext
    refine ⟨_, hfront, ?_⟩
    rw [hs, Text.trim_push_cr_eq_nil_iff] at hblank
    rw [String.toList_ofList, hblank]

theorem Holds.chomp {record : List (String × Value)} (h : Holds line record) : Holds (chomp line) record := by
  rcases chomp_cases line with heq | heq
  · rw [heq]
    exact h
  · obtain ⟨text, htext, hblank, hparse⟩ := h
    rw [heq] at htext
    obtain ⟨s, hs, hfront⟩ := Text.fromUTF8?_push_cr htext
    refine ⟨_, hfront, ?_, ?_⟩
    · rw [String.toList_ofList]
      rw [hs] at hblank
      exact mt (Text.trim_push_cr_eq_nil_iff s).2 hblank
    · apply Value.parse_of_parse_push
      rw [← hs, String.ofList_toList]
      exact hparse

theorem Rewrites.chomp {output : List String} (h : Rewrites S [line] output) : Rewrites S [chomp line] output := by
  cases h with
  | blank blank next => exact .blank blank.chomp next
  | record holds next => exact .record holds.chomp next

theorem blank_nil : Blank [] := ⟨"", by rw [Text.fromUTF8?_eq_some_iff]; rfl, rfl⟩

/-- If all lines of an input are rewritten, so are they with a line feed behind the input. -/
theorem Rewrites.map_chomp_pieces {input : List UInt8} {output : List String} (h : Rewrites S (lines input) output) :
    Rewrites S ((pieces input).map Stream.chomp) output := by
  rw [lines_eq] at h
  rcases List.eq_nil_or_concat' (pieces input) with hnil | ⟨front, last, hpieces⟩
  · exact absurd hnil (pieces_ne_nil input)
  · rw [hpieces, List.dropLast_concat, List.getLast?_concat] at h
    obtain ⟨output₁, output₂, rfl, hfront, hlast⟩ := h.exists_of_append
    rw [hpieces, List.map_append]
    refine hfront.append ?_
    by_cases hempty : last = []
    · -- an empty last piece was no line, and is a blank one now
      have houtput : output₂ = [] := by
        rw [hempty] at hlast
        cases hlast
        rfl
      rw [houtput, hempty]
      exact .blank blank_nil .nil
    · have hline : (some last).toList.filter (· ≠ []) = [last] := by simp [hempty]
      rw [hline] at hlast
      exact hlast.chomp

/-- A second input behind a line feed is rewritten as if it were alone, but that the lines in front of it count. -/
theorem run_append_lineFeed {a : List UInt8} (h : (run S a).2 = none) (b : List UInt8) :
    run S (a ++ lineFeed :: b) =
      ((run S a).1 ++ (run S b).1, (run S b).2.map (Fault.shift (a.count lineFeed + 1))) := by
  obtain ⟨output, hall⟩ := (exists_rewrites_iff S a).2 h
  have hlength : ((pieces a).map chomp).length = a.count lineFeed + 1 := by rw [List.length_map, length_pieces]
  rw [run_of_rewrites hall, run, lines_append_lineFeed, hall.map_chomp_pieces.rewriteLines_append, hlength,
    rewriteLines_shift]
  rfl

end Stream

end RecordFilter
