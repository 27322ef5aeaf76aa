import RecordFilter.Proofs.Directive

namespace RecordFilter.Directive

/-! # Entries that are accepted

An entry has a directive just if its name leads to a single location and what it says about the value is sound (`Sound`).
The cases are those of what an entry supplies (`Supplies`), where a source has to lead to a single location too. What a
visit takes for granted about a directive holds of every directive of an entry (`IsFor`).
-/

open Json (Value)

/-- Entries that say something sound about the value of their column. Where there is a source nothing else counts. Otherwise
a type and a literal have to make a default; with less the column is kept, not added, and a type has to be one that has
defaults. A literal without a type says nothing. -/
inductive Sound (role : Role) (c : Column) : Prop where
  | source {text : String} {p : Path} (given : c.source = some text) (parsed : Path.parse text = .ok p)
      (target : p.IsTarget)
  | default {type : ColumnType} {literal u : Value} (unsourced : c.source = none) (typed : c.type = some type)
      (given : c.default = some literal) (resolved : resolveDefault c.name type literal = .ok u)
  | withoutDefault (unsourced : c.source = none) (kept : role = .keep) (undefaulted : c.default = none)
      (supported : ∀ type, c.type = some type → type ∈ ColumnType.supported)
  | withoutType (unsourced : c.source = none) (kept : role = .keep) (untyped : c.type = none)

/-- What holds of a directive of an entry. A default may be `null`. -/
structure IsFor (role : Role) (c : Column) (d : Directive) : Prop where
  path : Path.parse c.name = .ok d.path
  base : d.path.last = .ok d.base
  sourced : ∀ text, c.source = some text → ∃ p, Path.parse text = .ok p ∧ d.source = some p ∧
    p.last = .ok d.sourceBase ∧ d.type = none ∧ d.default = none
  unsourced : c.source = none → d.source = none ∧ d.sourceBase = d.base
  single : d.base ≠ .wildcard ∧ d.sourceBase ≠ .wildcard
  supported : ∀ type, d.type = some type → type ∈ ColumnType.supported
  added : role = .add → d.source ≠ none ∨ d.default ≠ none

variable {role : Role} {c : Column} {d : Directive}

/-! ## Acceptance -/

theorem exists_ofPath_iff {path : Path} {type : Option ColumnType} {default : Option Value} {source : Option Path} :
    (∃ d, ofPath path type default source = .ok d) ↔ path.IsTarget ∧ ∀ p, source = some p → p.IsTarget := by
  constructor
  · rintro ⟨d, h⟩
    exact (ofPath_eq_ok_iff.1 h).1
  · intro h
    cases path with
    | root => exact absurd h.1 Path.not_isTarget_root
    | child parent base =>
      exact ⟨⟨parent, base, type, default, source⟩, ofPath_eq_ok_iff.2 ⟨h, rfl, rfl, rfl, rfl⟩⟩

/-- An entry is sound just if it supplies something, from a single location if it is a source. -/
theorem sound_iff :
    Sound role c ↔ ∃ type default source, Supplies role c type default source ∧ ∀ p, source = some p → p.IsTarget := by
  constructor
  · intro h
    cases h with
    | @source text p given parsed target =>
      refine ⟨none, none, some p, .source given parsed, ?_⟩
      intro q hq
      cases hq
      exact target
    | default unsourced typed given resolved =>
      exact ⟨_, _, none, .default unsourced typed given resolved, nofun⟩
    | withoutDefault unsourced kept undefaulted supported =>
      exact ⟨_, none, none, .bare unsourced kept (Or.inr undefaulted) supported, nofun⟩
    | withoutType unsourced kept untyped =>
      refine ⟨_, none, none, .bare unsourced kept (Or.inl untyped) ?_, nofun⟩
      intro type htype
      rw [untyped] at htype
      cases htype
  · rintro ⟨type, default, source, hsupplies, htarget⟩
    cases hsupplies with
    | source given parsed => exact .source given parsed (htarget _ rfl)
    | default unsourced typed given resolved => exact .default unsourced typed given resolved
    | bare unsourced kept incomplete supported =>
      rcases incomplete with untyped | undefaulted
      · exact .withoutType unsourced kept untyped
      · exact .withoutDefault unsourced kept undefaulted supported

theorem exists_ofColumn_iff :
    (∃ d, ofColumn role c = .ok d) ↔ (∃ p, Path.parse c.name = .ok p ∧ p.IsTarget) ∧ Sound role c := by
  constructor
  · rintro ⟨d, h⟩
    obtain ⟨path, type, default, source, hparse, hsupplies, hpath⟩ := ofColumn_eq_ok_iff.1 h
    obtain ⟨htarget, hsource⟩ := exists_ofPath_iff.1 ⟨d, hpath⟩
    exact ⟨⟨path, hparse, htarget⟩, sound_iff.2 ⟨type, default, source, hsupplies, hsource⟩⟩
  · rintro ⟨⟨path, hparse, htarget⟩, hsound⟩
    obtain ⟨type, default, source, hsupplies, hsource⟩ := sound_iff.1 hsound
    obtain ⟨d, hd⟩ := exists_ofPath_iff.2 ⟨htarget, hsource⟩
    exact ⟨d, ofColumn_eq_ok_iff.2 ⟨path, type, default, source, hparse, hsupplies, hd⟩⟩

/-! ## Directives -/

theorem last_source {p : Path} (hp : p.IsTarget) (h : d.source = some p) : p.last = .ok d.sourceBase := by
  cases p with
  | root => exact absurd hp Path.not_isTarget_root
  | child parent base =>
    rw [sourceBase, h]
    rfl

theorem isFor_of_ofColumn (h : ofColumn role c = .ok d) : IsFor role c d := by
  obtain ⟨path, type, default, source, _, hsupplies, hpath⟩ := ofColumn_eq_ok_iff.1 h
  obtain ⟨⟨_, htarget⟩, _, htype, hdefault, hsource⟩ := ofPath_eq_ok_iff.1 hpath
  refine ⟨parse_name_of_ofColumn h, rfl, ?sourced, ?unsourced, ne_wildcard_of_ofColumn h, ?supported, ?added⟩
  case sourced =>
    intro text htext
    cases hsupplies with
    | @source _ p given parsed =>
      cases given.symm.trans htext
      exact ⟨p, parsed, hsource, last_source (htarget p rfl) hsource, htype, hdefault⟩
    | default unsourced => cases unsourced.symm.trans htext
    | bare unsourced => cases unsourced.symm.trans htext
  case unsourced =>
    intro hnone
    exact ⟨source_of_ofColumn h hnone, sourceBase_of_ofColumn h hnone⟩
  case supported =>
    intro t ht
    rw [htype] at ht
    cases hsupplies with
    | source => cases ht
    | default _ _ _ resolved =>
      cases ht
      exact (resolveDefault_eq_ok resolved).1
    | bare _ _ _ supported => exact supported t ht
  case added =>
    intro hrole
    rw [hsource, hdefault]
    cases hsupplies with
    | source => exact Or.inl nofun
    | default => exact Or.inr nofun
    | bare _ kept => cases kept.symm.trans hrole

/-- Just the sound entries whose names lead to a single location have directives. Whatever the entry, its directive writes
at the path that the entry names, from a single location to a single location; it has only types that have defaults, and
with a source neither a type nor a default; and it takes the value from somewhere if the column is added. -/
theorem ofColumn_accepts_sound (role : Role) (c : Column) :
    ((∃ d, ofColumn role c = .ok d) ↔ (∃ p, Path.parse c.name = .ok p ∧ p.IsTarget) ∧ Sound role c) ∧
      ∀ d, ofColumn role c = .ok d → IsFor role c d :=
  ⟨exists_ofColumn_iff, fun _ h => isFor_of_ofColumn h⟩

/-- An entry with a source is accepted with a type that has no defaults, and one that is added with the default `null`. One
without a type is kept and its default dropped, but it is not added; nor is a wildcard written to. -/
theorem ofColumn_accepts_sound_copied :
    let a := Path.field "a"
    let copied : Column := ⟨"$.a[1]", some .timestamp, some .null, some "$.b[0]"⟩
    let nullable : Column := ⟨"$.a.k", some .long, some .null, none⟩
    let untyped : Column := ⟨"$.a.k", none, some (.bool true), none⟩
    let items : Column := ⟨"$.a[*]", none, none, some "$.b[0]"⟩
    (ofColumn .add copied = .ok ⟨a, .index 1, none, none, some ((Path.field "b").index 0)⟩ ∧
        IsFor .add copied ⟨a, .index 1, none, none, some ((Path.field "b").index 0)⟩) ∧
      (ofColumn .add nullable = .ok ⟨a, .name "k", some .long, some .null, none⟩ ∧
        IsFor .add nullable ⟨a, .name "k", some .long, some .null, none⟩) ∧
      (ofColumn .keep untyped = .ok ⟨a, .name "k", none, none, none⟩ ∧
        IsFor .keep untyped ⟨a, .name "k", none, none, none⟩) ∧
      (¬ Sound .add untyped ∧ ∀ d, ofColumn .add untyped ≠ .ok d) ∧ ∀ d, ofColumn .add items ≠ .ok d := by
  intro a copied nullable untyped items
  have hcopied : ofColumn .add copied = .ok ⟨a, .index 1, none, none, some ((Path.field "b").index 0)⟩ := by cbv
  have hnullable : ofColumn .add nullable = .ok ⟨a, .name "k", some .long, some .null, none⟩ := by cbv
  have huntyped : ofColumn .keep untyped = .ok ⟨a, .name "k", none, none, none⟩ := by cbv
  have hunsound : ¬ Sound .add untyped := by
    intro h
    cases h with
    | source given => cases given
    | default _ typed => cases typed
    | withoutDefault _ kept => cases kept
    | withoutType _ kept => cases kept
  refine ⟨⟨hcopied, (ofColumn_accepts_sound .add copied).2 _ hcopied⟩,
    ⟨hnullable, (ofColumn_accepts_sound .add nullable).2 _ hnullable⟩,
    ⟨huntyped, (ofColumn_accepts_sound .keep untyped).2 _ huntyped⟩, ⟨hunsound, ?unsound⟩, ?wildcard⟩
  case unsound =>
    intro d hd
    exact hunsound ((ofColumn_accepts_sound .add untyped).1.1 ⟨d, hd⟩).2
  case wildcard =>
    intro d hd
    obtain ⟨⟨p, hp, htarget⟩, _⟩ := (ofColumn_accepts_sound .add items).1.1 ⟨d, hd⟩
    have hparse : Path.parse items.name = .ok a.wildcard := by cbv
    cases hparse.symm.trans hp
    exact absurd rfl (Path.isTarget_child.1 htarget)

end RecordFilter.Directive
