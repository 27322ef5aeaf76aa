import RecordFilter.Config.Decoder
import RecordFilter.Config.Encoder
import RecordFilter.Proofs.Json.Writing

namespace RecordFilter

/-! # Configurations, written

What is written for a configuration is read back with two changes at most (`decode_text`): a default `null` is absent, and a
kept tag that has a meaning gets it. A default that is nested too deep is not read at all.
-/

open Json (Value Reader)
open Json.Reader

/-! ## What is changed -/

namespace ColumnType

/-- The tags that stand for a type of their own. -/
def knownTags : List String := ["boolean", "long", "integer", "double", "float", "string", "json", "timestamp"]

theorem ofTag_eq_other {s : String} (h : s ∉ knownTags) : ofTag s = .other s := by
  simp only [knownTags, List.mem_cons, List.not_mem_nil, or_false, not_or] at h
  simp [ofTag, h]

theorem ofTag_ne_other {s : String} (h : s ∈ knownTags) (t : String) : ofTag s ≠ .other t := by
  simp only [knownTags, List.mem_cons, List.not_mem_nil, or_false] at h
  rcases h with rfl | rfl | rfl | rfl | rfl | rfl | rfl | rfl <;> simp [ofTag]

/-- A type is read back unless its tag was kept and has a meaning. -/
theorem ofTag_tag_eq_self_iff (t : ColumnType) : ofTag t.tag = t ↔ ∀ s ∈ knownTags, t ≠ .other s := by
  by_cases hother : ∃ s, t = .other s
  · obtain ⟨s, rfl⟩ := hother
    constructor
    · rintro h u hu ⟨⟩
      exact ofTag_ne_other hu s h
    · intro h
      exact ofTag_eq_other fun hs => h s hs rfl
  · have hne : ∀ s, t ≠ .other s := fun s hs => hother ⟨s, hs⟩
    exact ⟨fun _ s _ => hne s, fun _ => ofTag_tag hne⟩

theorem ofTag_tag_ofTag (s : String) : ofTag (ofTag s).tag = ofTag s := by
  by_cases hs : s ∈ knownTags
  · exact ofTag_tag (ofTag_ne_other hs)
  · rw [ofTag_eq_other hs]
    exact ofTag_eq_other hs

end ColumnType

/-- A literal, unless it is `null`. -/
def Json.Value.present : Value → Option Value
  | .null => none
  | v => some v

theorem Json.Value.present_of_ne_null {v : Value} (h : v ≠ .null) : v.present = some v := by
  cases v with
  | null => exact absurd rfl h
  | _ => rfl

namespace Column

/-- An entry as it is read back. -/
def reread (e : Column) : Column :=
  { e with type := e.type.map fun t => .ofTag t.tag, default := e.default.bind Value.present }

/-- An entry that is read back as it is. -/
structure Settled (e : Column) : Prop where
  type : ∀ tag ∈ ColumnType.knownTags, e.type ≠ some (.other tag)
  default : e.default ≠ some .null

/-- An entry whose default can be read: it is not nested too deep, and has no key twice in one object. -/
def Shallow (e : Column) : Prop := ∀ v ∈ e.default, v.nest ≤ Config.defaultNesting ∧ v.Distinct

theorem reread_eq_self_iff (e : Column) : e.reread = e ↔ e.Settled := by
  obtain ⟨name, type, default, source⟩ := e
  have htype : type.map (fun t => ColumnType.ofTag t.tag) = type ↔
      ∀ tag ∈ ColumnType.knownTags, type ≠ some (.other tag) := by
    cases type with
    | none => simp
    | some t => simpa using ColumnType.ofTag_tag_eq_self_iff t
  have hdefault : default.bind Value.present = default ↔ default ≠ some .null := by
    cases default with
    | none => simp
    | some v => cases v <;> simp [Value.present]
  constructor
  · intro h
    simp only [reread, Column.mk.injEq, true_and, and_true] at h
    exact ⟨htype.1 h.1, hdefault.1 h.2⟩
  · rintro ⟨ht, hd⟩
    simp only [reread, Column.mk.injEq, true_and, and_true]
    exact ⟨htype.2 ht, hdefault.2 hd⟩

end Column

namespace Config

/-- The entries of all three lists. -/
def entries (c : Config) : List Column := c.columns ++ c.addColumns ++ c.dropColumns

/-- A configuration as it is read back. -/
def reread (c : Config) : Config :=
  ⟨c.columns.map Column.reread, c.addColumns.map Column.reread, c.dropColumns.map Column.reread⟩

theorem reread_eq_self_iff (c : Config) : c.reread = c ↔ ∀ e ∈ c.entries, e.Settled := by
  have hlist : ∀ es : List Column, es.map Column.reread = es ↔ ∀ e ∈ es, e.Settled := by
    intro es
    have hid := List.map_inj_left (f := Column.reread) (g := id) (l := es)
    rw [List.map_id] at hid
    simp only [hid, id, Column.reread_eq_self_iff]
  obtain ⟨columns, addColumns, dropColumns⟩ := c
  simp only [reread, entries, Config.mk.injEq, hlist, List.mem_append]
  grind

/-! ## What is written is read -/

theorem reads_textReader (s : String) : textReader.Reads (Value.string s).render s := by
  refine Reads.afterBlanks (Reads.branch (Json.reads_string s) ?_) (by decide)
  exact fun _ => rfl

theorem reads_optional {α : Type} {r : Reader Unfit α} {c : Char} {text : List Char} {a : α} (h : r.Reads (c :: text) a)
    (hblank : Json.isBlank c = false) (hc : c ≠ 'n') : (optional r).Reads (c :: text) (some a) := by
  refine Reads.afterBlanks (Reads.branch (h.map some) ?_) hblank
  intro s
  split
  · next heq => exact absurd (List.cons.inj heq).1 hc
  · rfl

theorem reads_typeReader (t : ColumnType) :
    typeReader.Reads (Value.string t.tag).render (some (.ofTag t.tag)) :=
  reads_optional ((reads_textReader t.tag).map _) (by decide) (by decide)

theorem reads_sourceReader (s : String) : sourceReader.Reads (Value.string s).render (some s) :=
  reads_optional (reads_textReader s) (by decide) (by decide)

theorem reads_defaultReader {v : Value} (hnest : v.nest ≤ defaultNesting) (hdistinct : v.Distinct) :
    defaultReader.Reads v.render v.present := by
  by_cases hnull : v = .null
  · subst hnull
    refine Reads.afterBlanks (Reads.branch ((reads_word 'n' ['u', 'l', 'l']).map fun _ => none) ?_) (by decide)
    exact fun _ => rfl
  · obtain ⟨c, s, hs, hblank, _, _, hc, _⟩ := v.exists_render_eq_cons
    have hvalue := Json.reads_value (ε := Unfit) hnest hdistinct
    rw [hs] at hvalue ⊢
    rw [Value.present_of_ne_null hnull]
    exact reads_optional hvalue hblank (hc hnull)

/-- The text of a member. -/
def memberText (key : String) (v : Value) : List Char := Json.renderString key ++ ':' :: v.render

/-- A known field is read by its own reader. -/
theorem reads_member {α β : Type} {step : String → List Char → Reader.Step Unfit β} {key : String} {v : Value}
    {r : Reader Unfit α} {a : α} (h : r.Reads v.render a) (f : α → β)
    (hstep : ∀ s, step key s = .more ((fieldValue r).map f)) :
    ((afterBlanks Json.string).andThen step).Reads (memberText key v) (f a) := by
  have hkey := Reads.afterBlanks (Json.reads_string (ε := Unfit) key) (by decide)
  have hvalue : ((fieldValue r).map f).Reads (':' :: v.render) (f a) :=
    (Reads.afterBlanks_exactly_bind h (by decide)).map f
  exact hkey.andThen hstep hvalue (by simp)

/-! ### Entries -/

/-- A field that is left out leaves what was read before as it is. -/
theorem readsAll_toList {σ γ : Type} (piece : σ → Reader Unfit σ) (o : Option γ) (text : γ → List Char)
    (next : Option γ → σ) (h : ∀ x ∈ o, (piece (next none)).Reads (text x) (next (some x))) :
    ReadsAll piece (next none) (o.map text).toList (next o) := by
  cases o with
  | none => exact .nil _
  | some x => exact .cons (h x rfl) (.nil _)

theorem opens_memberText (key : String) (v : Value) : Opens (memberText key v) :=
  (Json.opens_renderString key).append _

theorem render_object (members : List (String × Value)) :
    (Value.object members).render =
      '{' :: Json.commaSeparated (members.map fun m => memberText m.1 m.2) ++ ['}'] := by
  rw [Value.render, Json.renderMembers_eq]
  rfl

section Fields

variable {c : PartialColumn}

theorem reads_field_name (h : c.name = none) (s : String) :
    c.field.Reads (memberText "name" (.string s)) { c with name := some s } := by
  refine reads_member (reads_textReader s) (fun v => { c with name := some v }) ?_
  simp [knownField, h, Reader.Step.map]

theorem reads_field_type (h : c.type = none) (t : ColumnType) :
    c.field.Reads (memberText "type" (.string t.tag)) { c with type := some (some (.ofTag t.tag)) } := by
  refine reads_member (reads_typeReader t) (fun v => { c with type := some v }) ?_
  simp [knownField, h, Reader.Step.map]

theorem reads_field_default (h : c.default = none) {v : Value} (hnest : v.nest ≤ defaultNesting) (hdistinct : v.Distinct) :
    c.field.Reads (memberText "default" v) { c with default := some v.present } := by
  refine reads_member (reads_defaultReader hnest hdistinct) (fun v => { c with default := some v }) ?_
  simp [knownField, h, Reader.Step.map]

theorem reads_field_source (h : c.source = none) (s : String) :
    c.field.Reads (memberText "src" (.string s)) { c with source := some (some s) } := by
  refine reads_member (reads_sourceReader s) (fun v => { c with source := some v }) ?_
  simp [knownField, h, Reader.Step.map]

end Fields

/-- The texts of the fields of an entry. -/
def fieldTexts (e : Column) : List (List Char) :=
  [memberText "name" (.string e.name)] ++
    (e.type.map fun t => memberText "type" (.string t.tag)).toList ++
    (e.default.map fun v => memberText "default" v).toList ++
    (e.source.map fun s => memberText "src" (.string s)).toList

theorem opens_of_mem_fieldTexts {e : Column} {t : List Char} (h : t ∈ fieldTexts e) : Opens t := by
  simp only [fieldTexts, List.mem_append, List.mem_singleton, Option.mem_toList, Option.map_eq_some_iff] at h
  rcases h with ((rfl | ⟨_, _, rfl⟩) | ⟨_, _, rfl⟩) | ⟨_, _, rfl⟩ <;> exact opens_memberText _ _

theorem render_encode (e : Column) : e.encode.render = '{' :: Json.commaSeparated (fieldTexts e) ++ ['}'] := by
  rw [Column.encode, render_object]
  simp only [List.map_append, ← Option.toList_map, Option.map_map]
  rfl

/-- The fields of an entry are read one after the other. -/
theorem readsAll_fieldTexts {e : Column} (he : e.Shallow) :
    ReadsAll PartialColumn.field .empty (fieldTexts e)
      ⟨some e.name, e.type.map fun t => some (.ofTag t.tag), e.default.map Value.present, e.source.map some⟩ := by
  have hname : ReadsAll PartialColumn.field .empty [memberText "name" (.string e.name)]
      ⟨some e.name, none, none, none⟩ :=
    .cons (reads_field_name rfl e.name) (.nil _)
  have htype := readsAll_toList PartialColumn.field e.type (fun t => memberText "type" (.string t.tag))
    (fun type => ⟨some e.name, type.map fun t => some (.ofTag t.tag), none, none⟩)
    fun t _ => reads_field_type rfl t
  have hdefault := readsAll_toList PartialColumn.field e.default (fun v => memberText "default" v)
    (fun default => ⟨some e.name, e.type.map fun t => some (.ofTag t.tag), default.map Value.present, none⟩)
    fun v hv => reads_field_default rfl (he v hv).1 (he v hv).2
  have hsource := readsAll_toList PartialColumn.field e.source (fun s => memberText "src" (.string s))
    (fun source => ⟨some e.name, e.type.map fun t => some (.ofTag t.tag), e.default.map Value.present, source.map some⟩)
    fun s _ => reads_field_source rfl s
  exact ((hname.append htype).append hdefault).append hsource

theorem reads_columnReader {e : Column} (he : e.Shallow) : columnReader.Reads e.encode.render e.reread := by
  have hfinish : PartialColumn.finish .missingName
      ⟨some e.name, e.type.map fun t => some (.ofTag t.tag), e.default.map Value.present, e.source.map some⟩ =
        .ok e.reread := by
    obtain ⟨name, type, default, source⟩ := e
    cases type <;> cases default <;> cases source <;> rfl
  have hfields := (readsAll_fieldTexts he).delimited (fun _ => opens_of_mem_fieldTexts) '{' (Or.inr rfl)
  rw [render_encode]
  refine Reads.afterBlanks (Reads.branch (hfields.check hfinish) ?_) (by decide)
  exact fun _ => rfl

/-! ### Configurations -/

theorem reads_listReader {es : List Column} (h : ∀ e ∈ es, e.Shallow) :
    listReader.Reads (Value.array (es.map Column.encode)).render (es.map Column.reread) := by
  have hitems := reads_array (f := fun e => (Column.encode e).render) (fun e he => reads_columnReader (h e he))
    fun e _ => (Column.encode e).opens_render
  have hrender : (Value.array (es.map Column.encode)).render =
      '[' :: Json.commaSeparated (es.map fun e => e.encode.render) ++ [']'] := by
    rw [Value.render, Json.renderItems_eq, List.map_map]
    rfl
  rw [hrender]
  refine Reads.afterBlanks (Reads.branch hitems ?_) (by decide)
  exact fun _ => rfl

section Fields

variable {c : PartialConfig} {v : Value} {es : List Column}

theorem reads_field_columns (h : c.columns = none) (hv : listReader.Reads v.render es) :
    c.field.Reads (memberText "columns" v) { c with columns := some es } := by
  refine reads_member hv (fun v => { c with columns := some v }) ?_
  simp [knownField, h, Reader.Step.map]

theorem reads_field_addColumns (h : c.addColumns = none) (hv : listReader.Reads v.render es) :
    c.field.Reads (memberText "add_columns" v) { c with addColumns := some es } := by
  refine reads_member hv (fun v => { c with addColumns := some v }) ?_
  simp [knownField, h, Reader.Step.map]

theorem reads_field_dropColumns (h : c.dropColumns = none) (hv : listReader.Reads v.render es) :
    c.field.Reads (memberText "drop_columns" v) { c with dropColumns := some es } := by
  refine reads_member hv (fun v => { c with dropColumns := some v }) ?_
  simp [knownField, h, Reader.Step.map]

end Fields

/-- A configuration whose defaults are not too deep is read back with its changes. -/
theorem decode_text {c : Config} (h : ∀ e ∈ c.entries, e.Shallow) : decode c.text = .ok c.reread := by
  obtain ⟨columns, addColumns, dropColumns⟩ := c
  have hlists : ∀ e, e ∈ columns ∨ e ∈ addColumns ∨ e ∈ dropColumns → e.Shallow := by
    intro e he
    apply h
    simpa [entries, or_assoc] using he
  have hcolumns := reads_listReader fun e he => hlists e (Or.inl he)
  have hadd := reads_listReader fun e he => hlists e (Or.inr (Or.inl he))
  have hdrop := reads_listReader fun e he => hlists e (Or.inr (Or.inr he))
  have hall : ReadsAll PartialConfig.field .empty
      [memberText "columns" (.array (columns.map Column.encode)),
        memberText "add_columns" (.array (addColumns.map Column.encode)),
        memberText "drop_columns" (.array (dropColumns.map Column.encode))]
      ⟨some (columns.map Column.reread), some (addColumns.map Column.reread), some (dropColumns.map Column.reread)⟩ := by
    refine .cons (reads_field_columns rfl hcolumns) ?_
    refine .cons (reads_field_addColumns rfl hadd) ?_
    exact .cons (reads_field_dropColumns rfl hdrop) (.nil _)
  have hread : configReader.Reads (encode ⟨columns, addColumns, dropColumns⟩).render
      (reread ⟨columns, addColumns, dropColumns⟩) := by
    rw [encode, render_object]
    refine Reads.afterBlanks (Reads.branch ((hall.delimited ?_ '{' (Or.inr rfl)).map PartialConfig.finish) ?_) (by decide)
    · intro t ht
      simp only [List.mem_cons, List.not_mem_nil, or_false] at ht
      rcases ht with rfl | rfl | rfl <;> exact opens_memberText _ _
    · exact fun _ => rfl
  have hrun := hread Json.ends_nil
  rw [List.append_nil] at hrun
  rw [decode, text, Value.text, String.toList_ofList, whole, hrun]
  rfl

end Config

end RecordFilter
