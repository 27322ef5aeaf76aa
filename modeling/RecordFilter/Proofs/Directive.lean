import RecordFilter.Directive
import RecordFilter.Proofs.Column.Types

namespace RecordFilter

/-! # The directive of an entry

Whatever else an entry says, its directive writes at the path that the entry names. The source and the default are those
of the entry, the default converted to the type. When there is a directive, and what it is then, is said once for the path
and the source (`Directive.ofPath_eq_ok_iff`) and once for the entry (`Directive.ofColumn_eq_ok_iff`).
-/

open Json (Value)

/-- A path to a single location inside a record. -/
def Path.IsTarget (p : Path) : Prop := p ≠ .root ∧ p.endsWithWildcard = false

@[simp]
theorem Path.not_isTarget_root : ¬ Path.IsTarget .root := fun h => h.1 rfl

@[simp]
theorem Path.isTarget_child {p : Path} {s : Segment} : (p.child s).IsTarget ↔ s ≠ .wildcard := by
  cases s <;> simp [IsTarget, endsWithWildcard]

namespace Directive

variable {role : Role} {c : Column} {d : Directive} {path : Path} {type : Option ColumnType} {default : Option Value}
  {source : Option Path}

/-! ## Path and source -/

/-- A path and a source become a directive, as they are, just if each leads to a single location. -/
theorem ofPath_eq_ok_iff :
    ofPath path type default source = .ok d ↔
      (path.IsTarget ∧ ∀ p, source = some p → p.IsTarget) ∧
        d.path = path ∧ d.type = type ∧ d.default = default ∧ d.source = source := by
  constructor
  · intro h
    unfold ofPath at h
    split at h
    · cases h
    · cases h
    · next hbase =>
      split at h
      · cases h
      · cases h
      · next hroot hwildcard =>
        cases h
        refine ⟨⟨Path.isTarget_child.2 hbase, ?_⟩, rfl, rfl, rfl, rfl⟩
        rintro p rfl
        cases p with
        | root => exact absurd rfl hroot
        | child p s =>
          refine Path.isTarget_child.2 ?_
          rintro rfl
          exact hwildcard p rfl
  · rintro ⟨⟨hpath, hsource⟩, rfl, rfl, rfl, rfl⟩
    obtain ⟨parent, base, type, default, source⟩ := d
    have hbase : base ≠ .wildcard := Path.isTarget_child.1 hpath
    unfold ofPath path
    split
    · next heq => cases heq
    · next heq =>
      cases heq
      exact absurd rfl hbase
    · next heq =>
      cases heq
      split
      · next heq => exact absurd (hsource _ heq) Path.not_isTarget_root
      · next heq => exact absurd rfl (Path.isTarget_child.1 (hsource _ heq))
      · rfl

/-- What is written, and where it is found, is a single location. -/
theorem ne_wildcard_of_ofPath (h : ofPath path type default source = .ok d) :
    d.base ≠ .wildcard ∧ d.sourceBase ≠ .wildcard := by
  obtain ⟨⟨hpath, hsource⟩, rfl, _, _, rfl⟩ := ofPath_eq_ok_iff.1 h
  have hbase : d.base ≠ .wildcard := Path.isTarget_child.1 hpath
  refine ⟨hbase, ?_⟩
  unfold sourceBase
  split
  · next p s hs => exact Path.isTarget_child.1 (hsource _ hs)
  · exact hbase

theorem parsePath_eq_ok {text : String} {p : Path} :
    parsePath text = .ok p ↔ Path.parse text = .ok p := mapError_eq_ok

/-! ## Type, default and source -/

/-- What an entry supplies for its directive besides the path: a source, or else a default, or else what is found there. -/
inductive Supplies (role : Role) (c : Column) : Option ColumnType → Option Value → Option Path → Prop where
  | source {text : String} {p : Path} (given : c.source = some text) (parsed : Path.parse text = .ok p) :
    Supplies role c none none (some p)
  | default {type : ColumnType} {literal u : Value} (unsourced : c.source = none) (typed : c.type = some type)
      (given : c.default = some literal) (resolved : resolveDefault c.name type literal = .ok u) :
    Supplies role c (some type) (some u) none
  | bare (unsourced : c.source = none) (kept : role = .keep) (incomplete : c.type = none ∨ c.default = none)
      (supported : ∀ t, c.type = some t → t ∈ ColumnType.supported) : Supplies role c c.type none none

/-- The directive of an entry is made of the path of the entry and what the entry supplies. -/
theorem ofColumn_eq_ok_iff :
    ofColumn role c = .ok d ↔
      ∃ path type default source, Path.parse c.name = .ok path ∧ Supplies role c type default source ∧
        ofPath path type default source = .ok d := by
  constructor
  · intro h
    unfold ofColumn at h
    obtain ⟨path, hpath, h⟩ := bind_eq_ok.1 h
    have hparse := parsePath_eq_ok.1 hpath
    split at h
    · next text htext =>
      obtain ⟨source, hsource, h⟩ := bind_eq_ok.1 h
      exact ⟨path, none, none, some source, hparse, .source htext (parsePath_eq_ok.1 hsource), h⟩
    · next hsource =>
      -- a type and a literal make a default; with less the entry is bare, which is refused for what is added
      split at h
      · next type literal htype hliteral =>
        obtain ⟨u, hu, h⟩ := bind_eq_ok.1 h
        exact ⟨path, some type, some u, none, hparse, .default hsource htype hliteral hu, h⟩
      · next hbare =>
        have hincomplete : c.type = none ∨ c.default = none := by
          cases htype : c.type with
          | none => exact Or.inl rfl
          | some type =>
            cases hliteral : c.default with
            | none => exact Or.inr rfl
            | some literal => exact (hbare type literal htype hliteral).elim
        split at h
        · cases h
        · cases h
        · cases h
        · next htimestamp hother =>
          refine ⟨path, c.type, none, none, hparse, .bare hsource rfl hincomplete ?_, h⟩
          intro t ht
          exact ColumnType.mem_supported_iff.2 ⟨fun heq => htimestamp (heq ▸ ht), fun tag heq => hother tag (heq ▸ ht)⟩
  · rintro ⟨path, type, default, source, hparse, hsupplies, h⟩
    unfold ofColumn
    refine bind_eq_ok.2 ⟨path, parsePath_eq_ok.2 hparse, ?_⟩
    cases hsupplies with
    | source given parsed =>
      rw [given]
      exact bind_eq_ok.2 ⟨_, parsePath_eq_ok.2 parsed, h⟩
    | default unsourced typed given resolved =>
      rw [unsourced, typed, given]
      exact bind_eq_ok.2 ⟨_, resolved, h⟩
    | bare unsourced kept incomplete supported =>
      rw [unsourced, kept]
      split
      · next hsource => cases hsource
      · split
        · next htype hliteral =>
          rw [htype, hliteral] at incomplete
          exact absurd incomplete (by simp)
        · split
          · next hadd => cases hadd
          · next htimestamp => exact absurd rfl (ColumnType.mem_supported_iff.1 (supported _ htimestamp)).1
          · next tag _ hother => exact absurd rfl ((ColumnType.mem_supported_iff.1 (supported _ hother)).2 tag)
          · exact h

/-- The directive of an entry writes at the path of the entry. -/
theorem parse_name_of_ofColumn (h : ofColumn role c = .ok d) : Path.parse c.name = .ok d.path := by
  obtain ⟨path, type, default, source, hparse, _, hpath⟩ := ofColumn_eq_ok_iff.1 h
  rw [(ofPath_eq_ok_iff.1 hpath).2.1]
  exact hparse

theorem ne_wildcard_of_ofColumn (h : ofColumn role c = .ok d) : d.base ≠ .wildcard ∧ d.sourceBase ≠ .wildcard := by
  obtain ⟨_, _, _, _, _, _, hpath⟩ := ofColumn_eq_ok_iff.1 h
  exact ne_wildcard_of_ofPath hpath

/-- An entry becomes a directive in one of three ways: with a source, with a default, or bare. -/
theorem cases_of_ofColumn (h : ofColumn role c = .ok d) :
    (∃ text source, c.source = some text ∧ Path.parse text = .ok source ∧
      d.source = some source ∧ d.type = none ∧ d.default = none) ∨
    (∃ type literal u, c.source = none ∧ c.type = some type ∧ c.default = some literal ∧
      resolveDefault c.name type literal = .ok u ∧
      d.source = none ∧ d.type = some type ∧ d.default = some u) ∨
    (c.source = none ∧ d.source = none ∧ d.type = c.type ∧ d.default = none) := by
  obtain ⟨path, type, default, source, _, hsupplies, hpath⟩ := ofColumn_eq_ok_iff.1 h
  obtain ⟨_, _, htype, hdefault, hsource⟩ := ofPath_eq_ok_iff.1 hpath
  cases hsupplies with
  | source given parsed => exact Or.inl ⟨_, _, given, parsed, hsource, htype, hdefault⟩
  | default unsourced typed given resolved =>
    exact Or.inr (Or.inl ⟨_, _, _, unsourced, typed, given, resolved, hsource, htype, hdefault⟩)
  | bare unsourced _ _ _ => exact Or.inr (Or.inr ⟨unsourced, hsource, htype, hdefault⟩)

theorem source_of_ofColumn (h : ofColumn role c = .ok d) (hsource : c.source = none) : d.source = none := by
  rcases cases_of_ofColumn h with ⟨_, _, htext, _⟩ | ⟨_, _, _, _, _, _, _, hfrom, _⟩ | ⟨_, hfrom, _⟩
  · rw [hsource] at htext
    cases htext
  · exact hfrom
  · exact hfrom

/-- Without a source, a directive writes what it finds where it writes. -/
theorem sourceBase_of_ofColumn (h : ofColumn role c = .ok d) (hsource : c.source = none) : d.sourceBase = d.base := by
  rw [sourceBase, source_of_ofColumn h hsource]

/-- The default of a directive has distinct keys if the literal of its entry has. -/
theorem distinct_default_of_ofColumn (h : ofColumn role c = .ok d) (hliteral : ∀ u, c.default = some u → u.Distinct)
    {u : Value} (hu : d.default = some u) : u.Distinct := by
  rcases cases_of_ofColumn h with ⟨_, _, _, _, _, _, hnone⟩ | ⟨_, literal, w, _, _, hdefault, hw, _, _, hd⟩ |
    ⟨_, _, _, hnone⟩
  · rw [hnone] at hu
    cases hu
  · rw [hd] at hu
    cases hu
    exact distinct_of_resolveDefault hw (hliteral literal hdefault)
  · rw [hnone] at hu
    cases hu

end Directive

end RecordFilter
