import RecordFilter.Proofs.Stream.Records
import RecordFilter.Proofs.Visit.Nesting

namespace RecordFilter

/-! # Runs on the output of runs

A run writes its records one to a line, and no text of a record breaks a line, so the lines of what was written are those
that were written (`lines_written`). Each of them holds a record again if it is not nested too deep: the records that a
run reads are within the limit of the parser, and rewriting keeps them within it where no default reaches beyond it
(`exists_holds_of_mem_run`). So behind a run of such a configuration no run finds a line that fails
(`run_through_fault`).
-/

open Json (Value)

namespace Stream

variable {S T : Schema}

/-- The bytes that are written for lines of output: a line feed ends each. -/
def written (output : List String) : List UInt8 := output.flatMap fun line => Text.utf8 line.toList ++ [lineFeed]

/-- What is written by the last of some runs, each on what the one before has written. A run that stops at a line has
written the lines of output in front of it. -/
def through (stages : List Schema) (input : List UInt8) : List UInt8 :=
  stages.foldl (fun bytes S => written (run S bytes).1) input

/-! ## What was written -/

theorem lineFeed_notMem_utf8 {s : List Char} (h : '\n' ∉ s) : lineFeed ∉ Text.utf8 s := by
  intro hmem
  obtain ⟨c, hc, hbyte⟩ := List.mem_flatMap.1 hmem
  exact h (Text.eq_newline_of_mem_utf8EncodeChar hbyte ▸ hc)

/-- The lines of what was written are the lines that were written. -/
theorem lines_written {output : List String} (h : ∀ line ∈ output, '\n' ∉ line.toList) :
    lines (written output) = output.map fun line => chomp (Text.utf8 line.toList) := by
  induction output with
  | nil => rfl
  | cons line output ih =>
    have hline := lineFeed_notMem_utf8 (h line List.mem_cons_self)
    have hcons : written (line :: output) = Text.utf8 line.toList ++ lineFeed :: written output := by
      simp [written]
    rw [hcons, lines_append_of_notMem hline, ih fun l hl => h l (List.mem_cons_of_mem _ hl), List.map_cons]

/-- Each line of output was written for a record that a line holds. -/
theorem Rewrites.exists_of_mem {ls : List (List UInt8)} {output : List String} (h : Rewrites S ls output)
    {out : String} (hout : out ∈ output) : ∃ line record, Holds line record ∧ out = outputLine S record := by
  induction h with
  | nil => cases hout
  | blank _ _ ih => exact ih hout
  | @record line _ _ record holds _ ih =>
    rcases List.mem_cons.1 hout with rfl | htail
    · exact ⟨line, record, holds, rfl⟩
    · exact ih htail

/-- Each line of the output of a run was written for a record of the input. -/
theorem exists_of_mem_run {input : List UInt8} {out : String} (hout : out ∈ (run S input).1) :
    ∃ line record, Holds line record ∧ out = outputLine S record := by
  rcases rewrites_cases S (lines input) with ⟨output, hall⟩ | ⟨before, line, after, output, fault, hlines, hall, hfails⟩
  · rw [run_of_rewrites hall] at hout
    exact hall.exists_of_mem hout
  · rw [run_of_fails hlines hall hfails] at hout
    exact hall.exists_of_mem hout

/-! ## What is read again -/

/-- A line holds a record within the limit of the parser, with distinct keys. -/
theorem Holds.distinct_nest_le {line : List UInt8} {record : List (String × Value)} (h : Holds line record) :
    (Value.object record).Distinct ∧ (Value.object record).nest ≤ Json.maxNesting := by
  obtain ⟨text, _, _, hparse⟩ := h
  exact ⟨Value.distinct_of_parse hparse, Value.nest_le_of_parse hparse⟩

/-- Lines that all hold records are rewritten. -/
theorem exists_rewrites_of_holds {ls : List (List UInt8)} (h : ∀ line ∈ ls, ∃ record, Holds line record) :
    ∃ output, Rewrites S ls output := by
  induction ls with
  | nil => exact ⟨[], .nil⟩
  | cons line ls ih =>
    obtain ⟨record, hholds⟩ := h line List.mem_cons_self
    obtain ⟨output, hrest⟩ := ih fun l hl => h l (List.mem_cons_of_mem _ hl)
    exact ⟨_, .record hholds hrest⟩

section Stage

variable (hS : S.Coherent) (hdefault : S.EachDefault Value.Distinct) (hreach : S.defaultReach ≤ Json.maxNesting)
include hS hdefault hreach

/-- What is written for a record within the limit holds a record. -/
theorem exists_holds_outputLine {line : List UInt8} {record : List (String × Value)} (h : Holds line record) :
    ∃ record', Holds (Text.utf8 (outputLine S record).toList) record' := by
  obtain ⟨hdistinct, hnest⟩ := h.distinct_nest_le
  have hrewritten : (Value.object (S.rewriteRecord record)).Distinct := by
    rw [(Schema.rewrite_agrees_with_visit S).2 record hdistinct]
    obtain ⟨hkeys, heach⟩ := Value.distinct_object.1 hdistinct
    refine .object ?_ ?_
    · rw [Dictionary.keys, List.map_map]
      exact hkeys
    · intro _ hmember
      obtain ⟨e, he, rfl⟩ := List.mem_map.1 hmember
      exact hS.distinct_visit hdefault (heach e he)
  have hholds := holds_render (hS.nest_rewriteRecord_le hdistinct hreach hnest) hrewritten
  refine ⟨S.rewriteRecord record, ?_⟩
  rw [outputLine, Value.text, String.toList_ofList]
  exact hholds

/-- A run on what a run has written fails at no line. -/
theorem run_written_fault (input : List UInt8) : (run T (written (run S input).1)).2 = none := by
  have hline : ∀ out ∈ (run S input).1, '\n' ∉ out.toList := by
    intro out hout
    obtain ⟨_, record, _, rfl⟩ := exists_of_mem_run hout
    rw [outputLine, Value.text, String.toList_ofList]
    exact Value.newline_notMem_render _
  rw [← exists_rewrites_iff, lines_written hline]
  apply exists_rewrites_of_holds
  intro line hmem
  obtain ⟨out, hout, rfl⟩ := List.mem_map.1 hmem
  obtain ⟨_, record, hholds, rfl⟩ := exists_of_mem_run hout
  obtain ⟨record', hagain⟩ := exists_holds_outputLine hS hdefault hreach hholds
  exact ⟨record', hagain.chomp⟩

end Stage

end Stream

/-- The schema of a configuration none of whose defaults reaches beyond the limit of the parser. The literals are values
that were read, so their keys are distinct. -/
structure Config.KeepsWithinLimit (c : Config) (S : Schema) : Prop where
  compiled : Schema.compile c = .ok S
  literals : ∀ e ∈ c.columns ++ c.addColumns, ∀ u, e.default = some u → u.Distinct
  reach : S.defaultReach ≤ Json.maxNesting

namespace Stream

/-- Behind runs of such configurations a run fails at no line. -/
theorem run_through_fault {stages : List Schema} (hne : stages ≠ [])
    (h : ∀ S ∈ stages, ∃ c : Config, c.KeepsWithinLimit S) (input : List UInt8) (T : Schema) :
    (run T (through stages input)).2 = none := by
  rcases List.eq_nil_or_concat' stages with rfl | ⟨front, S, rfl⟩
  · exact absurd rfl hne
  · obtain ⟨c, hcompile, hliteral, hreach⟩ := h S (List.mem_append_right _ List.mem_cons_self)
    have hthrough : through (front ++ [S]) input = written (run S (through front input)).1 := by
      rw [through, List.foldl_concat]
      rfl
    rw [hthrough]
    exact run_written_fault (Schema.coherent_of_compile hcompile)
      (Schema.eachDefault_distinct_of_compile hcompile hliteral) hreach _

/-- Rewriting deepens a record only by its defaults. So where no default reaches beyond the limit of the parser, a record
within the limit stays within it, and however many runs of such configurations follow on each other, none of them and no
run behind them fails at a line that a run has written. -/
theorem nest_rewriteRecord_le_max {c : Config} {S : Schema} (h : Schema.compile c = .ok S) :
    (∀ r, (Value.object r).Distinct →
      (Value.object (S.rewriteRecord r)).nest ≤ max (Value.object r).nest S.defaultReach) ∧
    (S.defaultReach ≤ Json.maxNesting → ∀ r, (Value.object r).Distinct → (Value.object r).nest ≤ Json.maxNesting →
      (Value.object (S.rewriteRecord r)).nest ≤ Json.maxNesting) ∧
    ∀ stages : List Schema, stages ≠ [] → (∀ S ∈ stages, ∃ c : Config, c.KeepsWithinLimit S) →
      ∀ input T, (run T (through stages input)).2 = none := by
  have hS := Schema.coherent_of_compile h
  refine ⟨?bound, ?limit, fun stages hne hstages input T => run_through_fault hne hstages input T⟩
  case bound =>
    intro r hr
    exact hS.nest_rewriteRecord_le hr (Nat.le_max_right _ _) (Nat.le_max_left _ _)
  case limit =>
    intro hreach r hr hnest
    exact hS.nest_rewriteRecord_le hr hreach hnest

/-- A default inside a default: the record is deepened as far as the inner one reaches, and is read again by two more
runs. -/
theorem nest_rewriteRecord_le_max_nested_defaults :
    let c : Config := ⟨[⟨"$.a.k", some .json, some (.object []), none⟩,
      ⟨"$.a.k.m", some .json, some (.array [.null]), none⟩], [], []⟩
    let a := Path.field "a"
    let S : Schema := ⟨[a, a.key "k", (a.key "k").key "m"],
      [(a, [(a.key "k", ⟨a, .name "k", some .json, some (.object []), none⟩)]),
        (a.key "k", [((a.key "k").key "m", ⟨a.key "k", .name "m", some .json, some (.array [.null]), none⟩)])],
      [], []⟩
    let r : List (String × Value) := [("a", .object [])]
    let input := Text.utf8 (Value.object r).render
    Schema.compile c = .ok S ∧ S.defaultReach = 4 ∧ (Value.object r).Distinct ∧ (Value.object r).nest = 2 ∧
      (Value.object (S.rewriteRecord r)).nest = 4 ∧
      (Value.object (S.rewriteRecord r)).nest ≤ max (Value.object r).nest S.defaultReach ∧
      (Value.object (S.rewriteRecord r)).nest ≤ Json.maxNesting ∧ c.KeepsWithinLimit S ∧
      (run S input).1 = [outputLine S r] ∧ (run S (through [S, S] input)).2 = none := by
  intro c a S r input
  have h : Schema.compile c = .ok S := by cbv
  have hreach : S.defaultReach = 4 := by cbv
  have hr : (Value.object r).Distinct := by simp [r, Dictionary.keys]
  have hnest : (Value.object r).nest = 2 := by cbv
  have hlimit : S.defaultReach ≤ Json.maxNesting := by
    rw [hreach]
    decide
  have hliteral : ∀ e ∈ c.columns ++ c.addColumns, ∀ u, e.default = some u → u.Distinct := by
    simp [c, Dictionary.keys]
  have hc : c.KeepsWithinLimit S := ⟨h, hliteral, hlimit⟩
  have hlines : lines input = [input] := by decide
  have hrun : (run S input).1 = [outputLine S r] := by
    have hrewrites : Rewrites S (lines input) [outputLine S r] := by
      rw [hlines]
      exact .record (holds_render (by rw [hnest]; decide) hr) .nil
    rw [run_of_rewrites hrewrites]
  obtain ⟨hbound, hwithin, hpipeline⟩ := nest_rewriteRecord_le_max h
  have hstages : ∀ T ∈ [S, S], ∃ c : Config, c.KeepsWithinLimit T := by
    intro T hT
    obtain rfl : T = S := by simpa using hT
    exact ⟨c, hc⟩
  exact ⟨h, hreach, hr, hnest, by cbv, hbound r hr, hwithin hlimit r hr (by rw [hnest]; decide), hc, hrun,
    hpipeline [S, S] (by simp) hstages input S⟩

end Stream

end RecordFilter
