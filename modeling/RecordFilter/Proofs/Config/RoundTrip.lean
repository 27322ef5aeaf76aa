import RecordFilter.Config.Loading
import RecordFilter.Proofs.Config.Writing
import RecordFilter.Proofs.Outcome

namespace RecordFilter

/-! # Configurations, written and read back

A configuration that is written is read back as it is just if no entry of it would be changed or refused
(`Column.Writable`). Nothing that is read is changed when it is read again: each reader keeps to this (`Column.Stable`),
whatever fields it has read before. So what is read once survives being written and read.
-/

open Json (Value Reader)
open Json.Reader

/-- An entry that would be read again as it is. -/
def Column.Stable (e : Column) : Prop := e.Settled ∧ e.Shallow

namespace Config

/-! ## What can be read -/

variable {α β : Type}

theorem yields_mismatch (wanted : Wanted) {P : α → Prop} : (mismatch wanted : Reader Unfit α).Yields P := by
  apply Yields.branch
  intro s
  split
  · exact yields_fail _
  · exact yields_fail _
  · apply Yields.check
    intro _ _ _ _ b hb
    cases hb

theorem yields_optional {r : Reader Unfit α} {P : α → Prop} (h : r.Yields P) :
    (optional r).Yields fun o => ∀ a ∈ o, P a := by
  apply Yields.afterBlanks
  apply Yields.branch
  intro s
  split
  · exact yields_map fun _ _ ha => nomatch ha
  · apply Yields.map
    rintro s rest a hrun _ ⟨⟩
    exact h hrun

theorem yields_typeReader : typeReader.Yields fun o => ∀ t ∈ o, ColumnType.ofTag t.tag = t := by
  apply yields_optional
  exact yields_map ColumnType.ofTag_tag_ofTag

/-- A default is not `null`, which is read as none. -/
theorem yields_defaultReader :
    defaultReader.Yields fun o => ∀ v ∈ o, v ≠ .null ∧ v.nest ≤ defaultNesting ∧ v.Distinct := by
  intro s rest o hrun
  simp only [defaultReader, optional, afterBlanks, branch] at hrun
  split at hrun
  · obtain ⟨_, _, rfl⟩ := exists_of_map_run_eq_ok hrun
    intro v hv
    cases hv
  · next hother =>
    obtain ⟨v, hread, rfl⟩ := exists_of_map_run_eq_ok hrun
    rintro _ ⟨⟩
    refine ⟨?_, Json.yields_nest_le _ hread, Json.yields_distinct _ hread⟩
    rintro rfl
    obtain ⟨t, ht⟩ := Json.exists_of_value_run_null hread
    rw [Json.skipBlanks_skipBlanks] at ht
    exact hother t ht

theorem yields_knownField {field : String} {before : Option α} {r : Reader Unfit α} {f : α → β} {Q : β → Prop}
    (h : r.Yields fun a => Q (f a)) : ((knownField field before r).map f).Yields Q := by
  cases before with
  | some _ => exact ⟨fun _ heq => (nomatch heq), fun _ heq => (nomatch heq)⟩
  | none =>
    refine ⟨?_, fun _ heq => (nomatch heq)⟩
    rintro _ ⟨⟩
    exact Yields.map (Yields.bind fun _ => h)

/-- The fields that were read so far would be read again as they are. -/
structure PartialColumn.Stable (c : PartialColumn) : Prop where
  type : ∀ t ∈ c.type.join, ColumnType.ofTag t.tag = t
  default : ∀ v ∈ c.default.join, v ≠ .null ∧ v.nest ≤ defaultNesting ∧ v.Distinct

theorem PartialColumn.stable_empty : PartialColumn.empty.Stable := ⟨fun _ ht => (nomatch ht), fun _ hv => (nomatch hv)⟩

theorem PartialColumn.yields_field {c : PartialColumn} (h : c.Stable) : c.field.Yields PartialColumn.Stable := by
  apply Yields.andThen
  intro key s
  split
  · exact yields_knownField fun _ _ _ _ => ⟨h.type, h.default⟩
  · split
    · exact yields_knownField fun _ _ _ hrun => ⟨yields_typeReader hrun, h.default⟩
    · split
      · exact yields_knownField fun _ _ _ hrun => ⟨h.type, yields_defaultReader hrun⟩
      · split
        · exact yields_knownField fun _ _ _ _ => ⟨h.type, h.default⟩
        · refine ⟨?_, fun _ heq => (nomatch heq)⟩
          rintro _ ⟨⟩
          exact yields_map fun _ => h

theorem PartialColumn.yields_element {st : Nat × PartialColumn} (h : st.2.Stable) :
    (element st).Yields fun st => st.2.Stable := by
  unfold element
  split
  · exact yields_map fun _ => ⟨h.type, h.default⟩
  · exact Yields.map fun _ _ _ hrun => ⟨yields_typeReader hrun, h.default⟩
  · exact Yields.map fun _ _ _ hrun => ⟨h.type, yields_defaultReader hrun⟩
  · exact yields_map fun _ => ⟨h.type, h.default⟩
  · exact yields_fail _

theorem PartialColumn.Stable.finish {c : PartialColumn} (h : c.Stable) {missing : Unfit} {e : Column}
    (hfinish : c.finish missing = .ok e) : e.Stable := by
  unfold PartialColumn.finish at hfinish
  split at hfinish
  · cases hfinish
  · cases hfinish
    refine ⟨⟨?_, ?_⟩, fun v hv => (h.default v hv).2⟩
    · intro tag htag hother
      exact (ColumnType.ofTag_tag_eq_self_iff _).1 (h.type _ hother) tag htag rfl
    · intro hnull
      exact (h.default _ hnull).1 rfl

theorem yields_columnReader : columnReader.Yields Column.Stable := by
  apply Yields.afterBlanks
  apply Yields.branch
  intro s
  split
  · apply Yields.check
    intro s rest c hrun e hfinish
    have hstable := yields_delimited (fun _ h => PartialColumn.yields_field h) PartialColumn.stable_empty hrun
    exact hstable.finish hfinish
  · apply Yields.check
    intro s rest st hrun e hfinish
    have hstable := yields_delimited (P := fun st : Nat × PartialColumn => st.2.Stable)
      (fun _ h => PartialColumn.yields_element h) PartialColumn.stable_empty hrun
    exact hstable.finish hfinish
  · exact yields_mismatch _

theorem yields_listReader : listReader.Yields fun es => ∀ e ∈ es, e.Stable := by
  apply Yields.afterBlanks
  apply Yields.branch
  intro s
  split
  · exact yields_array yields_columnReader
  · exact yields_mismatch _

/-- The lists that were read so far would be read again as they are. -/
structure PartialConfig.Stable (c : PartialConfig) : Prop where
  columns : ∀ es ∈ c.columns, ∀ e ∈ es, e.Stable
  addColumns : ∀ es ∈ c.addColumns, ∀ e ∈ es, e.Stable
  dropColumns : ∀ es ∈ c.dropColumns, ∀ e ∈ es, e.Stable

theorem PartialConfig.stable_empty : PartialConfig.empty.Stable :=
  ⟨fun _ h => (nomatch h), fun _ h => (nomatch h), fun _ h => (nomatch h)⟩

theorem yields_some_list {es : List Column} {s rest : List Char} (hrun : listReader.run s = .ok (es, rest)) :
    ∀ es' ∈ some es, ∀ e ∈ es', e.Stable := by
  rintro _ ⟨⟩
  exact yields_listReader hrun

theorem PartialConfig.yields_field {c : PartialConfig} (h : c.Stable) : c.field.Yields PartialConfig.Stable := by
  apply Yields.andThen
  intro key s
  split
  · exact yields_knownField fun _ _ _ hrun => ⟨yields_some_list hrun, h.addColumns, h.dropColumns⟩
  · split
    · exact yields_knownField fun _ _ _ hrun => ⟨h.columns, yields_some_list hrun, h.dropColumns⟩
    · split
      · exact yields_knownField fun _ _ _ hrun => ⟨h.columns, h.addColumns, yields_some_list hrun⟩
      · refine ⟨?_, fun _ heq => (nomatch heq)⟩
        rintro _ ⟨⟩
        exact yields_map fun _ => h

theorem PartialConfig.yields_element {st : Nat × PartialConfig} (h : st.2.Stable) :
    (element st).Yields fun st => st.2.Stable := by
  unfold element
  split
  · exact Yields.map fun _ _ _ hrun => ⟨yields_some_list hrun, h.addColumns, h.dropColumns⟩
  · exact Yields.map fun _ _ _ hrun => ⟨h.columns, yields_some_list hrun, h.dropColumns⟩
  · exact Yields.map fun _ _ _ hrun => ⟨h.columns, h.addColumns, yields_some_list hrun⟩
  · exact yields_fail _

theorem PartialConfig.Stable.finish {c : PartialConfig} (h : c.Stable) : ∀ e ∈ c.finish.entries, e.Stable := by
  have hlist : ∀ {o : Option (List Column)}, (∀ es ∈ o, ∀ e ∈ es, e.Stable) → ∀ e ∈ o.getD [], e.Stable := by
    intro o ho e he
    cases o with
    | none => cases he
    | some es => exact ho es rfl e he
  intro e he
  simp only [PartialConfig.finish, entries, List.mem_append] at he
  rcases he with (hcolumns | hadd) | hdrop
  · exact hlist h.columns e hcolumns
  · exact hlist h.addColumns e hadd
  · exact hlist h.dropColumns e hdrop

/-- Whatever configuration is read would be read again as it is. -/
theorem stable_of_decode {text : String} {c : Config} (h : decode text = .ok c) : ∀ e ∈ c.entries, e.Stable := by
  have hyields : configReader.Yields fun c => ∀ e ∈ c.entries, e.Stable := by
    apply Yields.afterBlanks
    apply Yields.branch
    intro s
    split
    · apply Yields.map
      intro s rest c hrun
      exact (yields_delimited (fun _ h => PartialConfig.yields_field h) PartialConfig.stable_empty hrun).finish
    · apply Yields.map
      intro s rest st hrun
      have hstable := yields_delimited (P := fun st : Nat × PartialConfig => st.2.Stable)
        (fun _ h => PartialConfig.yields_element h) PartialConfig.stable_empty hrun
      exact hstable.finish
    · exact yields_mismatch _
  exact hyields.of_whole h

/-! ## The round trip -/

theorem emptyPositions_eq_nil_iff (es : List Column) : emptyPositions es = [] ↔ ∀ e ∈ es, e.name ≠ "" := by
  have hname : ∀ s : String, s.isEmpty = true ↔ s = "" := fun s => String.isEmpty_iff
  have hindex : ∀ n, (es.zipIdx n).filterMap (fun x => if x.1.name.isEmpty then some x.2 else none) = [] ↔
      ∀ e ∈ es, e.name ≠ "" := by
    induction es with
    | nil => simp
    | cons e es ih =>
      intro n
      by_cases he : e.name = ""
      · simp [hname, he]
      · rw [List.zipIdx_cons, List.filterMap_cons]
        have hne : e.name.isEmpty = false := by simpa [hname] using he
        simp only [hne, Bool.false_eq_true, if_false, ih (n + 1), List.forall_mem_cons]
        simp [he]
  exact hindex 0

theorem validate_eq_ok_iff (c : Config) : c.validate = .ok () ↔ ∀ e ∈ c.entries, e.name ≠ "" := by
  have hnames : (⟨emptyPositions c.columns, emptyPositions c.addColumns, emptyPositions c.dropColumns⟩ : EmptyNames) =
      ⟨[], [], []⟩ ↔ ∀ e ∈ c.entries, e.name ≠ "" := by
    simp only [EmptyNames.mk.injEq, emptyPositions_eq_nil_iff, entries, List.mem_append]
    grind
  rw [← hnames, validate]
  split
  · next h => simp [h]
  · next h => simp [h]

theorem ofText_eq_ok_iff {text : String} {c : Config} :
    ofText text = .ok c ↔ decode text = .ok c ∧ ∀ e ∈ c.entries, e.name ≠ "" := by
  rw [ofText, bind_eq_ok]
  constructor
  · rintro ⟨c', hdecode, h⟩
    obtain ⟨_, hvalidate, hc⟩ := bind_eq_ok.1 h
    cases hc
    exact ⟨mapError_eq_ok.1 hdecode, (validate_eq_ok_iff c).1 hvalidate⟩
  · rintro ⟨hdecode, hnames⟩
    refine ⟨c, mapError_eq_ok.2 hdecode, bind_eq_ok.2 ⟨(), (validate_eq_ok_iff c).2 hnames, rfl⟩⟩

/-- A configuration without changes is read back. -/
theorem decode_text_eq_self {c : Config} (h : ∀ e ∈ c.entries, e.Stable) : decode c.text = .ok c := by
  rw [decode_text fun e he => (h e he).2, (reread_eq_self_iff c).2 fun e he => (h e he).1]

theorem ofText_text {c : Config} (h : ∀ e ∈ c.entries, e.Stable) (hnames : ∀ e ∈ c.entries, e.name ≠ "") :
    ofText c.text = .ok c :=
  ofText_eq_ok_iff.2 ⟨decode_text_eq_self h, hnames⟩

end Config

/-- An entry that survives being written and read: it has a name, its type is not a tag without meaning that is the tag of
a type, and its default is neither `null` nor nested too deep. -/
structure Column.Writable (e : Column) : Prop where
  name : e.name ≠ ""
  type : ∀ tag ∈ ["boolean", "long", "integer", "double", "float", "string", "json", "timestamp"],
    e.type ≠ some (.other tag)
  default : e.default ≠ some .null
  nest : ∀ v, e.default = some v → v.nest ≤ 124

namespace Config

/-- A configuration survives being written and read just if each entry does, and if it was read it does. That no default
has a key twice in one object is what makes it a literal at all. -/
theorem ofText_text_eq_ok_iff :
    (∀ c : Config, (∀ e ∈ c.entries, ∀ v, e.default = some v → v.Distinct) →
      (ofText c.text = .ok c ↔ ∀ e ∈ c.entries, e.Writable)) ∧
    ∀ text c, ofText text = .ok c → ofText c.text = .ok c := by
  constructor
  · intro c hdistinct
    constructor
    · intro h e he
      obtain ⟨hdecode, hnames⟩ := ofText_eq_ok_iff.1 h
      obtain ⟨hsettled, hshallow⟩ := stable_of_decode hdecode e he
      exact ⟨hnames e he, hsettled.type, hsettled.default, fun v hv => (hshallow v hv).1⟩
    · intro h
      apply ofText_text
      · intro e he
        exact ⟨⟨(h e he).type, (h e he).default⟩, fun v hv => ⟨(h e he).nest v hv, hdistinct e he v hv⟩⟩
      · exact fun e he => (h e he).name
  · intro text c h
    obtain ⟨hdecode, hnames⟩ := ofText_eq_ok_iff.1 h
    exact ofText_text (stable_of_decode hdecode) hnames

/-- A default `null` and a tag that has a meaning are lost once, and then no more. -/
theorem ofText_text_eq_ok_iff_lost_once :
    let literal : Value := .object [("é\n", .array [.number (.float (.zero true)), .null]), ("k", .string "\x01\"")]
    let c : Config := ⟨[⟨"$.a", some (.other "uuid"), some literal, some "$.b"⟩], [], []⟩
    let lost : Config := ⟨[], [⟨"a", some (.other "integer"), some .null, none⟩], []⟩
    let found : Config := ⟨[], [⟨"a", some .long, none, none⟩], []⟩
    (∀ e ∈ c.entries, ∀ v, e.default = some v → v.Distinct) ∧ ofText c.text = .ok c ∧
      ofText lost.text ≠ .ok lost ∧ ofText lost.text = .ok found ∧ ofText found.text = .ok found := by
  intro literal c lost found
  have hdistinct : ∀ e ∈ c.entries, ∀ v, e.default = some v → v.Distinct := by
    simp [c, entries, literal, Dictionary.keys]
  have hwritable : ∀ e ∈ c.entries, e.Writable := by
    intro e he
    obtain rfl : e = ⟨"$.a", some (.other "uuid"), some literal, some "$.b"⟩ := by simpa [c, entries] using he
    refine ⟨by decide, by decide, by simp [literal], ?_⟩
    rintro _ ⟨⟩
    decide
  have hlost : ¬ ∀ e ∈ lost.entries, e.Writable := by
    intro h
    exact (h _ List.mem_cons_self).default rfl
  have hlostDistinct : ∀ e ∈ lost.entries, ∀ v, e.default = some v → v.Distinct := by
    simp [lost, entries]
  have hread : ofText lost.text = .ok found := by
    have hshallow : ∀ e ∈ lost.entries, e.Shallow := by
      simp [lost, entries, Column.Shallow, Value.nest]
    exact ofText_eq_ok_iff.2 ⟨decode_text hshallow, by simp [found, entries]⟩
  obtain ⟨hiff, hagain⟩ := ofText_text_eq_ok_iff
  exact ⟨hdistinct, (hiff c hdistinct).2 hwritable, mt (hiff lost hlostDistinct).1 hlost, hread, hagain _ _ hread⟩

end Config

end RecordFilter
