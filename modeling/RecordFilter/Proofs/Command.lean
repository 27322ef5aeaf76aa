import RecordFilter.Command
import RecordFilter.Proofs.Config.RoundTrip
import RecordFilter.Proofs.Stream.Records

namespace RecordFilter

/-! # What a run of the command leaves behind

The command is a record stream (`run_streams`): its output is that of the lines in front of the first that fails, and
its report is of that line (`Outcome.Covers`). The law for two inputs with a line feed between them is that of streams,
and does not look at the lines again.
-/

open RecordFilter.Stream (Rewrites Fails LineFault Fault lineFeed)

namespace Command

/-- What is left behind after some lines: all of them are rewritten and nothing is reported, or the first that fails is
reported and those in front of it are rewritten. -/
def Outcome.Covers (S : Schema) (lines : List (List UInt8)) (o : Outcome) : Prop :=
  (Rewrites S lines o.output ∧ o.report = none) ∨
    ∃ before line after fault, lines = before ++ line :: after ∧ Rewrites S before o.output ∧ Fails line fault ∧
      o.report = some (streamReport ⟨before.length + 1, fault⟩)

theorem Outcome.exitCode_eq_zero_iff (o : Outcome) : o.exitCode = 0 ↔ o.report = none := by
  unfold exitCode
  cases o.report with
  | none => simp
  | some report => simp

theorem Outcome.exitCode_cases (o : Outcome) : o.exitCode = 0 ∨ o.exitCode = 1 := by
  unfold exitCode
  split
  · exact Or.inr rfl
  · exact Or.inl rfl

theorem Outcome.exitCode_eq_of_isSome_eq {o p : Outcome} (h : o.report.isSome = p.report.isSome) :
    o.exitCode = p.exitCode := by
  rw [exitCode, exitCode, h]

/-- A report of a line names it by its number. -/
theorem exists_context_streamReport (f : Fault) :
    ∃ front back, (streamReport f).context = front ++ Text.numeral f.number ++ back := by
  rcases f with ⟨number, fault⟩
  cases fault with
  | notUtf8 => exact ⟨"Failed to read record ", "", by rw [String.append_empty]; rfl⟩
  | notJson => exact ⟨"Record ", " is not valid JSON", rfl⟩
  | notObject => exact ⟨"Record ", " is not a JSON object", rfl⟩

/-- A report tells which line failed, and why. -/
theorem streamReport_injective {f g : Fault} (h : streamReport f = streamReport g) : f = g := by
  have hnumber : ∀ {m n : Nat} (front back : List Char),
      front ++ Text.digits m ++ back = front ++ Text.digits n ++ back → m = n := by
    intro m n front back heq
    have hdigits := List.append_cancel_left (List.append_cancel_right heq)
    rw [← Text.digitsValue_digits m, hdigits, Text.digitsValue_digits]
  -- the reports of the two other faults end in different letters
  have hends : ∀ {front back : List Char},
      front ++ " is not valid JSON".toList ≠ back ++ " is not a JSON object".toList := by
    intro front back heq
    have hjson : " is not valid JSON".toList.getLast? = some 'N' := by decide
    have hobject : " is not a JSON object".toList.getLast? = some 't' := by decide
    have hlast := congrArg List.getLast? heq
    rw [List.getLast?_append, List.getLast?_append, hjson, hobject] at hlast
    cases hlast
  have hcontext := congrArg (fun r => r.context.toList) h
  have hcause := congrArg Report.cause h
  obtain ⟨m, fault⟩ := f
  obtain ⟨n, fault'⟩ := g
  cases fault <;> cases fault' <;>
    simp only [streamReport, Text.numeral, String.toList_append, String.toList_ofList] at hcontext hcause
  · have heq := hnumber (m := m) (n := n) "Failed to read record ".toList [] (by simpa using hcontext)
    rw [heq]
  · cases hcause
  · cases hcause
  · cases hcause
  · rw [hnumber _ _ hcontext]
  · exact absurd hcontext hends
  · cases hcause
  · exact absurd hcontext.symm hends
  · rw [hnumber _ _ hcontext]

section Inputs

variable {S : Schema} {bytes : List UInt8} {output : List String}

theorem rewriteInput_of_rewrites (h : Rewrites S (Stream.lines bytes) output) (name : String) :
    rewriteInput S name (.ok bytes) = ⟨output, none⟩ := by
  simp only [rewriteInput, Stream.run_of_rewrites h, Option.map_none]

theorem rewriteInput_of_fails {before after : List (List UInt8)} {line : List UInt8} {fault : LineFault}
    (hlines : Stream.lines bytes = before ++ line :: after) (h : Rewrites S before output) (hfails : Fails line fault)
    (name : String) :
    rewriteInput S name (.ok bytes) = ⟨output, some (streamReport ⟨before.length + 1, fault⟩)⟩ := by
  simp only [rewriteInput, Stream.run_of_fails hlines h hfails, Option.map_some]

variable (S bytes)

theorem covers_rewriteInput (name : String) : (rewriteInput S name (.ok bytes)).Covers S (Stream.lines bytes) := by
  rcases Stream.rewrites_cases S (Stream.lines bytes) with ⟨output, hall⟩ |
    ⟨before, line, after, output, fault, hlines, hbefore, hfails⟩
  · rw [rewriteInput_of_rewrites hall]
    exact Or.inl ⟨hall, rfl⟩
  · rw [rewriteInput_of_fails hlines hbefore hfails]
    exact Or.inr ⟨before, line, after, fault, hlines, hbefore, hfails, rfl⟩

end Inputs

/-- The exit code tells whether a line fails. -/
theorem Outcome.Covers.exitCode_eq_zero_iff {S : Schema} {lines : List (List UInt8)} {o : Outcome}
    (h : o.Covers S lines) : o.exitCode = 0 ↔ ∀ line ∈ lines, ∀ fault, ¬ Fails line fault := by
  rw [Outcome.exitCode_eq_zero_iff]
  rcases h with ⟨hall, hnone⟩ | ⟨before, line, after, fault, rfl, _, hfails, hreport⟩
  · exact ⟨fun _ => hall.not_fails, fun _ => hnone⟩
  · constructor
    · intro hnone
      rw [hreport] at hnone
      cases hnone
    · intro hnot
      exact absurd hfails (hnot line (by simp) fault)

/-- A second input behind a line feed is treated as if it were alone, but that the lines in front of it count. -/
theorem rewriteInput_append_lineFeed (S : Schema) (name : String) (a b : List UInt8)
    (h : (rewriteInput S name (.ok a)).exitCode = 0) :
    ∃ fault : Option Fault,
      (rewriteInput S name (.ok b)).report = fault.map streamReport ∧
      rewriteInput S name (.ok (a ++ lineFeed :: b)) =
        ⟨(rewriteInput S name (.ok a)).output ++ (rewriteInput S name (.ok b)).output,
          (fault.map (Fault.shift (a.count lineFeed + 1))).map streamReport⟩ := by
  have hnone : (Stream.run S a).2 = none := by
    rw [Outcome.exitCode_eq_zero_iff] at h
    exact Option.map_eq_none_iff.1 h
  refine ⟨(Stream.run S b).2, rfl, ?_⟩
  simp only [rewriteInput, Stream.run_append_lineFeed hnone]

/-- The same run on an input of these bytes. -/
def Invocation.on (i : Invocation) (bytes : List UInt8) : Invocation := { i with input := .ok bytes }

theorem run_of_prepare_eq_error {i : Invocation} {report : Report} (h : prepare i.configFile i.config = .error report) :
    run i = ⟨[], some report⟩ := by
  rw [run, h]

theorem run_on_of_prepare_eq_ok {i : Invocation} {c : Config} {S : Schema}
    (h : prepare i.configFile i.config = .ok (c, S)) (hcheck : i.checkOnly = false) (bytes : List UInt8) :
    run (i.on bytes) = rewriteInput S i.inputFile (.ok bytes) := by
  have hon : prepare (i.on bytes).configFile (i.on bytes).config = .ok (c, S) := h
  have hcheckOn : (i.on bytes).checkOnly = false := hcheck
  rw [run, hon]
  simp only [hcheckOn, Bool.false_eq_true, if_false]
  rfl

/-- The command is a record stream. A configuration that does not load or compile is reported, whatever the input. Else
each line of the input is passed over if blank and rewritten if it holds a record, up to the first that fails, which is
reported by its number. An input without a line that fails is treated alike in front of another; only the number that is
reported then counts its lines too. -/
theorem run_streams (i : Invocation) (hcheck : i.checkOnly = false) :
    (∀ report, prepare i.configFile i.config = .error report → run i = ⟨[], some report⟩ ∧ (run i).exitCode = 1) ∧
    (∀ f : Fault, ∃ front back, (streamReport f).context = front ++ Text.numeral f.number ++ back) ∧
    ∀ c S, prepare i.configFile i.config = .ok (c, S) →
      (∀ bytes,
        Stream.lines bytes = (Stream.pieces bytes).dropLast.map Stream.chomp ++
            (Stream.pieces bytes).getLast?.toList.filter (· ≠ []) ∧
          (run (i.on bytes)).Covers S (Stream.lines bytes) ∧
          ((run (i.on bytes)).exitCode = 0 ↔ ∀ line ∈ Stream.lines bytes, ∀ fault, ¬ Fails line fault) ∧
          ((run (i.on bytes)).exitCode = 0 ∨ (run (i.on bytes)).exitCode = 1)) ∧
      ∀ a b, (run (i.on a)).exitCode = 0 →
        (run (i.on (a ++ lineFeed :: b))).output = (run (i.on a)).output ++ (run (i.on b)).output ∧
          (run (i.on (a ++ lineFeed :: b))).exitCode = (run (i.on b)).exitCode ∧
          ∀ fault : Option Fault, (run (i.on b)).report = fault.map streamReport →
            (run (i.on (a ++ lineFeed :: b))).report =
              fault.map fun f => streamReport ⟨f.number + (a.count lineFeed + 1), f.fault⟩ := by
  refine ⟨?unprepared, exists_context_streamReport, fun c S hprepare => ⟨?lines, ?together⟩⟩
  case unprepared =>
    intro report h
    rw [run_of_prepare_eq_error h]
    exact ⟨rfl, rfl⟩
  case lines =>
    intro bytes
    have hcovers : (run (i.on bytes)).Covers S (Stream.lines bytes) := by
      rw [run_on_of_prepare_eq_ok hprepare hcheck]
      exact covers_rewriteInput S bytes i.inputFile
    exact ⟨Stream.lines_eq bytes, hcovers, hcovers.exitCode_eq_zero_iff, Outcome.exitCode_cases _⟩
  case together =>
    intro a b hzero
    have hrun := run_on_of_prepare_eq_ok hprepare hcheck
    rw [hrun] at hzero
    obtain ⟨fault, hb, hboth⟩ := rewriteInput_append_lineFeed S i.inputFile a b hzero
    rw [hrun, hrun, hrun]
    refine ⟨?_, ?_, ?_⟩
    · rw [hboth]
    · apply Outcome.exitCode_eq_of_isSome_eq
      rw [hboth, hb, Option.isSome_map, Option.isSome_map, Option.isSome_map]
    · intro fault' hb'
      have heq : fault = fault' := Option.map_injective (fun _ _ => streamReport_injective) (hb.symm.trans hb')
      rw [hboth, ← heq, Option.map_map]
      rfl

/-- A file that holds what is written for a configuration is loaded as the configuration. -/
theorem prepare_text {c : Config} {S : Schema} (file : String) (hstable : ∀ e ∈ c.entries, e.Stable)
    (hnames : ∀ e ∈ c.entries, e.name ≠ "") (hcompile : Schema.compile c = .ok S) :
    prepare file (.ok (Text.utf8 c.text.toList)) = .ok (c, S) := by
  have htext : Config.textOfBytes (Text.utf8 c.text.toList) = .ok c.text := by
    rw [Config.textOfBytes, Text.fromUTF8?_eq_some_iff.2 rfl]
  have hfile : Config.ofFile file (.ok (Text.utf8 c.text.toList)) = .ok c := by
    rw [Config.ofFile, Except.bind, htext, bind_eq_ok]
    exact ⟨c.text, rfl, Config.ofText_text hstable hnames⟩
  have hchecked : c.compile = .ok S := by
    rw [Config.compile, bind_eq_ok]
    exact ⟨(), (Config.validate_eq_ok_iff c).2 hnames, mapError_eq_ok.2 hcompile⟩
  rw [prepare, bind_eq_ok]
  refine ⟨c, mapError_eq_ok.2 hfile, ?_⟩
  rw [bind_eq_ok]
  exact ⟨S, mapError_eq_ok.2 hchecked, rfl⟩

/-- The third line of an input fails: the first is a record whose line has a carriage return at its end, and the second is
empty. A configuration that is not there fails before all lines. -/
theorem run_streams_third_line :
    let record : List (String × Json.Value) := [("a", .object [("x", .null), ("y", .string "z")])]
    let dropped : Path := (Path.field "a").child (.name "x")
    let S : Schema := ⟨[Path.field "a", dropped], [], [], [(Path.field "a", [dropped])]⟩
    let c : Config := ⟨[], [], [⟨"$.a.x", none, none, none⟩]⟩
    let i : Invocation := ⟨"config.json", .ok (Text.utf8 c.text.toList), "records", .error "is a directory", false⟩
    let a : List UInt8 := Text.utf8 (Json.Value.object record).render ++ [13, 10]
    let b : List UInt8 := Text.utf8 (Json.Value.array []).render
    prepare i.configFile i.config = .ok (c, S) ∧
      ¬ (∀ line ∈ Stream.lines b, ∀ fault, ¬ Fails line fault) ∧
      (run (i.on a)).output = ["\x7b\"a\":\x7b\"y\":\"z\"\x7d\x7d"] ∧
      (run (i.on a)).exitCode = 0 ∧
      (run (i.on (a ++ lineFeed :: b))).output = ["\x7b\"a\":\x7b\"y\":\"z\"\x7d\x7d"] ∧
      (run (i.on (a ++ lineFeed :: b))).exitCode = 1 ∧
      (run (i.on (a ++ lineFeed :: b))).report = some ⟨"Record 3 is not a JSON object", none⟩ ∧
      run { i with config := .error "not found" } =
        ⟨[], some ⟨"Failed to read configuration file 'config.json': not found", some "not found"⟩⟩ := by
  intro record dropped S c i a b
  have hprepare : prepare i.configFile i.config = .ok (c, S) := by
    apply prepare_text
    · intro e he
      obtain rfl : e = ⟨"$.a.x", none, none, none⟩ := by simpa [c, Config.entries] using he
      refine ⟨⟨fun _ _ => by simp, by simp⟩, ?_⟩
      intro v hv
      cases hv
    · simp [c, Config.entries]
    · cbv
  have houtput : Stream.outputLine S record = "\x7b\"a\":\x7b\"y\":\"z\"\x7d\x7d" := by
    have hrewrite : S.rewriteRecord record = [("a", .object [("y", .string "z")])] := by cbv
    rw [Stream.outputLine, hrewrite]
    decide
  have hholds : Stream.Holds (Text.utf8 (Json.Value.object record).render) record :=
    Stream.holds_render (by decide) (by simp [record, Dictionary.keys])
  have hfails : Fails b .notObject := by
    have hread : Json.Value.parse (Json.Value.array []).text = .ok (.array []) := Json.Value.parse_text (by decide) (by simp)
    refine .notObject (Text.fromUTF8?_eq_some_iff.2 rfl) (by decide) hread ?_
    intro _ h
    cases h
  have hrecord : run (i.on a) = ⟨[Stream.outputLine S record], none⟩ := by
    have hlines : Stream.lines a = [Text.utf8 (Json.Value.object record).render] := by decide
    have hrewrites : Rewrites S (Stream.lines a) [Stream.outputLine S record] := by
      rw [hlines]
      exact .record hholds .nil
    rw [run_on_of_prepare_eq_ok hprepare rfl, rewriteInput_of_rewrites hrewrites]
  have hother : run (i.on b) = ⟨[], some (streamReport ⟨1, .notObject⟩)⟩ := by
    have hlines : Stream.lines b = [] ++ b :: [] := by decide
    rw [run_on_of_prepare_eq_ok hprepare rfl, rewriteInput_of_fails hlines .nil hfails]
    rfl
  have hzero : (run (i.on a)).exitCode = 0 := by
    rw [hrecord]
    rfl
  obtain ⟨_, _, hrun⟩ := run_streams i rfl
  obtain ⟨hlines, htogether⟩ := hrun c S hprepare
  obtain ⟨_, _, hfailing, _⟩ := hlines b
  obtain ⟨hboth, hexit, hreport⟩ := htogether a b hzero
  have hnone := (run_streams { i with config := .error "not found" } rfl).1
    ⟨"Failed to read configuration file 'config.json': not found", some "not found"⟩ rfl
  rw [hrecord, hother] at hboth
  rw [hother] at hexit
  have hsome : (run (i.on b)).exitCode ≠ 0 := by
    rw [hother]
    decide
  refine ⟨hprepare, mt hfailing.2 hsome, ?_, hzero, ?_, hexit, ?_, hnone.1⟩
  · rw [hrecord, houtput]
  · rw [hboth, houtput]
    rfl
  · have hcount : a.count lineFeed = 1 := by decide
    rw [hreport (some ⟨1, .notObject⟩) (by rw [hother]; rfl), hcount]
    cbv

end Command

end RecordFilter
