import RecordFilter.Proofs.Visit.Agreement

namespace RecordFilter

/-! # Fields do not interfere

What happens inside a field of a record depends only on the entries whose names lead into that field. Entries about other
fields, names of fields, and the path of the field itself do not matter (`visitField_eq_of_sameInside`). They do change
the schema: its tables, at the root above all, and the paths that it enters. But schemas of configurations with the same
entries inside a field agree at each path from that field on (`agreeAt_of_sameInside`).
-/

open Json (Value)

/-- Whether a path leads to something inside a field. -/
def Path.isInside (f : String) (p : Path) : Bool :=
  p.segments.head? == some (.name f) && decide (2 ≤ p.depth)

/-- The lists of two configurations have the same entries inside a field, in the same order. -/
structure Config.SameInside (f : String) (c c' : Config) : Prop where
  columns : Schema.naming (Path.isInside f) c.columns = Schema.naming (Path.isInside f) c'.columns
  addColumns : Schema.naming (Path.isInside f) c.addColumns = Schema.naming (Path.isInside f) c'.addColumns
  dropColumns : Schema.naming (Path.isInside f) c.dropColumns = Schema.naming (Path.isInside f) c'.dropColumns

namespace Schema

variable {f : String} {c c' : Config} {S S' : Schema} {p : Path}

/-! ## From a field on -/

theorem head?_segments_child {t : Segment} (hp : p.segments.head? = some t) (s : Segment) :
    (p.child s).segments.head? = some t := by
  simp [Path.segments, hp]

/-- What lies below a path from the field on is inside the field. -/
theorem isInside_of_mem_prefixes (hp : p.segments.head? = some (.name f)) {s : Segment} {n : Path}
    (h : p.child s ∈ n.prefixes) : n.isInside f := by
  obtain ⟨rest, hrest⟩ := (Path.mem_prefixes_iff.1 h).2
  have hhead : n.segments.head? = some (.name f) := by
    rw [← hrest, List.head?_append, head?_segments_child hp s]
    rfl
  have hpos : 0 < p.segments.length := by
    apply List.length_pos_iff.2
    intro hnil
    simp [hnil] at hp
  have hdepth : 2 ≤ n.depth := by
    rw [← Path.length_segments, ← hrest, List.length_append, Path.segments, List.length_append,
      List.length_singleton]
    omega
  simp [Path.isInside, hhead, hdepth]

theorem isInside_of_isChildOf (hp : p.segments.head? = some (.name f)) (n : Path) (h : p.isChildOf n) :
    n.isInside f := by
  cases n with
  | root => cases h
  | child q s =>
    have hq : q = p := by simpa [Path.isChildOf] using h
    subst hq
    exact isInside_of_mem_prefixes hp (Path.self_mem_prefixes (Path.child_ne_root q s))

/-! ## Agreement -/

/-- Lists with the same entries inside the field have the same entries right below a path from the field on. -/
theorem naming_isChildOf_eq (hp : p.segments.head? = some (.name f)) {cs cs' : List Column}
    (h : naming (Path.isInside f) cs = naming (Path.isInside f) cs') :
    naming p.isChildOf cs = naming p.isChildOf cs' := by
  rw [← naming_naming (isInside_of_isChildOf hp) cs, h, naming_naming (isInside_of_isChildOf hp)]

theorem filter_names_eq (h : c.SameInside f c') :
    c.names.filter (Path.isInside f) = c'.names.filter (Path.isInside f) := by
  simp only [Config.names, List.filter_append, ← names_naming, h.columns, h.addColumns, h.dropColumns]

theorem visits_child_eq (h : compile c = .ok S) (h' : compile c' = .ok S') (hsame : c.SameInside f c')
    (hp : p.segments.head? = some (.name f)) (s : Segment) :
    S.visits (p.child s) = S'.visits (p.child s) := by
  -- a name that the path leads to is inside the field
  have hinside : ∀ (c : Config) (S : Schema), compile c = .ok S →
      (S.visits (p.child s) ↔ ∃ n ∈ c.names.filter (Path.isInside f), p.child s ∈ n.prefixes) := by
    intro c S h
    rw [visits_iff_of_compile h]
    constructor
    · rintro ⟨n, hn, hprefix⟩
      exact ⟨n, List.mem_filter.2 ⟨hn, isInside_of_mem_prefixes hp hprefix⟩, hprefix⟩
    · rintro ⟨n, hn, hprefix⟩
      exact ⟨n, (List.mem_filter.1 hn).1, hprefix⟩
  rw [Bool.eq_iff_iff, hinside c S h, hinside c' S' h', filter_names_eq hsame]

/-- Schemas of configurations with the same entries inside a field agree from the field on. -/
theorem agreeAt_of_sameInside (h : compile c = .ok S) (h' : compile c' = .ok S')
    (hmode : c.dropColumns = [] ↔ c'.dropColumns = []) (hsame : c.SameInside f c')
    (hp : p.segments.head? = some (.name f)) : AgreeAt S S' p := by
  obtain ⟨keep, add, hkeep, hadd, hS⟩ := eq_of_compile h
  obtain ⟨keep', add', hkeep', hadd', hS'⟩ := eq_of_compile h'
  refine ⟨?keep, ?add, ?drop, ?item⟩
  case keep =>
    by_cases hdrop : c.dropColumns = []
    · rw [keptDirectives_of_no_drops hdrop] at hkeep
      rw [keptDirectives_of_no_drops (hmode.1 hdrop)] at hkeep'
      have htable := find?_directiveTable_eq hkeep hkeep' (naming_isChildOf_eq hp hsame.columns)
      rw [hS, hS', keepAt, keepAt, htable]
    · rw [keepAt_of_drops h hdrop, keepAt_of_drops h' (mt hmode.2 hdrop)]
  case add =>
    have htable := find?_directiveTable_eq hadd hadd' (naming_isChildOf_eq hp hsame.addColumns)
    rw [hS, hS', addAt, addAt, htable]
  case drop =>
    intro q
    rw [mem_dropAt_iff_mem_namesBelow h, mem_dropAt_iff_mem_namesBelow h', namesBelow, namesBelow,
      ← names_naming, ← names_naming, naming_isChildOf_eq hp hsame.dropColumns]
  case item =>
    intro i
    left
    have hvisits : S.visits (p.index i) = S'.visits (p.index i) := visits_child_eq h h' hsame hp _
    rw [itemPath, itemPath, hvisits]

/-! ## Fields -/

theorem keys_rewriteRecord (S : Schema) (r : List (String × Value)) :
    Dictionary.keys (S.rewriteRecord r) = Dictionary.keys r := by
  rw [Dictionary.keys, rewriteRecord, List.map_map]
  rfl

/-- What happens inside a field depends only on the entries inside that field and on whether any column is dropped. The
fields of a record stay as they are, whatever happens inside them. -/
theorem visitField_eq_of_sameInside (h : compile c = .ok S) (h' : compile c' = .ok S')
    (hmode : c.dropColumns = [] ↔ c'.dropColumns = []) (hsame : c.SameInside f c') :
    (∀ v, S.visitField f v = S'.visitField f v) ∧
      (∀ v : Value, v.Distinct → S.rewrite (Path.field f) v = S'.rewrite (Path.field f) v) ∧
      ∀ r : List (String × Value), Dictionary.keys (S.rewriteRecord r) = Dictionary.keys r := by
  have hvisit : ∀ v, S.visitField f v = S'.visitField f v := by
    intro v
    have hroot : ∀ p : Path, p.segments.head? = some (.name f) → p ≠ .root := by
      rintro p hp rfl
      cases hp
    exact (coherent_of_compile h).visit_eq_of_agreeAt (coherent_of_compile h') hroot
      (fun p s hp => head?_segments_child hp s) (fun p hp => agreeAt_of_sameInside h h' hmode hsame hp)
      rfl v
  refine ⟨hvisit, ?_, keys_rewriteRecord S⟩
  intro v hv
  rw [rewrite_eq_visit hv, rewrite_eq_visit hv]
  exact hvisit v

/-- Next to the entries inside the field `a`, the second configuration has the name of a field, the path of the field `a`
itself, and entries about another field. -/
theorem visitField_eq_of_sameInside_among_others :
    let entry (name : String) : Column := ⟨name, none, none, none⟩
    let copied (name source : String) : Column := ⟨name, none, none, some source⟩
    let c : Config := ⟨[entry "$.a.k", entry "$.a.l", entry "$.a.l[1]"], [copied "$.a.n" "$.z"], []⟩
    let c' : Config := ⟨[entry "f", entry "$.a", entry "$.a.k", entry "$.b.c", entry "$.a.l", entry "$.a.l[1]"],
      [copied "$.b.d" "$.z", copied "$.a.n" "$.z"], []⟩
    let a := Path.field "a"
    let b := Path.field "b"
    let kept (p : Path) (s : Segment) : Path × Directive := (p.child s, ⟨p, s, none, none, none⟩)
    let added (p : Path) (s : Segment) : Path × Directive := (p.child s, ⟨p, s, none, none, some (Path.field "z")⟩)
    let S : Schema := ⟨[a, a.key "k", a.key "l", (a.key "l").index 1, a.key "n"],
      [(a, [kept a (.name "k"), kept a (.name "l")]), (a.key "l", [kept (a.key "l") (.index 1)])],
      [(a, [added a (.name "n")])], []⟩
    let S' : Schema := ⟨[a, a.key "k", b, b.key "c", a.key "l", (a.key "l").index 1, b.key "d", a.key "n"],
      [(.root, [kept .root (.name "a")]), (a, [kept a (.name "k"), kept a (.name "l")]),
        (b, [kept b (.name "c")]), (a.key "l", [kept (a.key "l") (.index 1)])],
      [(b, [added b (.name "d")]), (a, [added a (.name "n")])], []⟩
    let v : Value := .object [("l", .array [.null, .bool true]), ("m", .null), ("k", .null), ("z", .string "z")]
    compile c = .ok S ∧ compile c' = .ok S' ∧ (c.dropColumns = [] ↔ c'.dropColumns = []) ∧
      c.SameInside "a" c' ∧
      S.visitField "a" v = .object [("k", .null), ("l", .array [.bool true]), ("n", .string "z")] ∧
      S.visitField "a" v = S'.visitField "a" v ∧ v.Distinct ∧ S.rewrite a v = S'.rewrite a v ∧
      Dictionary.keys (S.rewriteRecord [("g", v), ("a", v)]) = ["g", "a"] := by
  intro entry copied c c' a b kept added S S' v
  have h : compile c = .ok S := by cbv
  have h' : compile c' = .ok S' := by cbv
  have hmode : c.dropColumns = [] ↔ c'.dropColumns = [] := Iff.rfl
  have hsame : c.SameInside "a" c' := ⟨by cbv, by cbv, by cbv⟩
  have hv : v.Distinct := by simp [v, Dictionary.keys]
  obtain ⟨hvisit, hrewrite, hkeys⟩ := visitField_eq_of_sameInside h h' hmode hsame
  exact ⟨h, h', hmode, hsame, by cbv, hvisit v, hv, hrewrite v hv, hkeys [("g", v), ("a", v)]⟩

end Schema

end RecordFilter
