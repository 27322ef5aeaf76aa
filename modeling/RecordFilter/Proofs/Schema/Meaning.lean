import RecordFilter.Proofs.Schema.Tables
import Mathlib.Data.List.Nodup

namespace RecordFilter

/-! # What a schema says

A compiled schema says what its configuration says, and no more (`Represents`). What carries this is that compiling works
entry by entry: choosing directives by the paths that they write at comes to the same as choosing the entries by the paths
that they name (`directives_naming`). So the directives at a path come from the entries that name a child of it; where
several name the same child, the first gives its position and the last its directive.
-/

/-- Whether a path is a child of `q`. -/
def Path.isChildOf (q : Path) : Path → Bool
  | .root => false
  | .child p _ => p == q

theorem Path.isChildOf_iff {p q : Path} : p.isChildOf q ↔ q.parent = .ok p := by
  cases q with
  | root => simp [isChildOf, parent]
  | child q s => simp [isChildOf, parent]

/-- The path that an entry names, if it names one. -/
def Column.path? (e : Column) : Option Path :=
  if e.isNested then (Path.parse e.name).toOption else none

namespace Schema

/-! ## Choosing entries -/

/-- The entries of a list that name a path of some kind. -/
def naming (P : Path → Bool) (cs : List Column) : List Column := cs.filter fun e => e.path?.any P

/-- The paths right below `q` that entries of a list name, one for each of these entries. -/
def namesBelow (q : Path) (cs : List Column) : List Path := (names cs).filter q.isChildOf

/-- The last entry of a list that names `p`. -/
def lastNaming (p : Path) (cs : List Column) : Option Column := (naming (· == p) cs).getLast?

theorem names_eq_filterMap (cs : List Column) : names cs = cs.filterMap Column.path? := by
  rw [names, nested, List.filterMap_filter]
  rfl

/-- The names of chosen entries are the chosen names. -/
theorem names_naming (P : Path → Bool) (cs : List Column) : names (naming P cs) = (names cs).filter P := by
  rw [names_eq_filterMap, names_eq_filterMap, naming, List.filterMap_filter, List.filter_filterMap]
  congr 1
  funext e
  cases e.path? with
  | none => rfl
  | some p => simp [Option.filter]

/-- Of entries that are chosen already, those are chosen again that are chosen at once. -/
theorem naming_naming {P Q : Path → Bool} (h : ∀ p, P p → Q p) (cs : List Column) :
    naming P (naming Q cs) = naming P cs := by
  rw [naming, naming, naming, List.filter_filter]
  apply List.filter_congr
  intro e _
  cases e.path? with
  | none => rfl
  | some p => simpa using h p

theorem path?_of_ofColumn {role : Directive.Role} {e : Column} (he : e.isNested) {d : Directive}
    (h : Directive.ofColumn role e = .ok d) : e.path? = some d.path := by
  rw [Column.path?, if_pos he, Directive.parse_name_of_ofColumn h]
  rfl

variable {role : Directive.Role} {cs : List Column} {ds : List Directive}

/-- The directives that write at paths of some kind are those of the entries that name such paths. -/
theorem directives_naming (h : directives role cs = .ok ds) (P : Path → Bool) :
    (naming P cs).mapM (Directive.ofColumn role) = .ok (ds.filter fun d => P d.path) := by
  have hnaming : naming P cs = (nested cs).filter fun e => e.path?.any P := by
    rw [naming, nested, List.filter_filter]
    apply List.filter_congr
    intro e _
    cases hnested : e.isNested with
    | true => simp
    | false => simp [Column.path?, hnested]
  rw [hnaming]
  apply mapM_filter_eq_ok h
  intro e he d hd
  have hnested : e.isNested := (List.mem_filter.1 he).2
  rw [path?_of_ofColumn hnested hd]
  rfl

/-- Directives write at the paths that their entries name. -/
theorem map_path_of_directives (h : directives role cs = .ok ds) : ds.map Directive.path = names cs := by
  apply names_of_namedPaths
  apply mapM_map_eq_ok h
  intro e _ d hd
  exact Directive.parsePath_eq_ok.2 (Directive.parse_name_of_ofColumn hd)

/-! ## Tables of directives -/

/-- A table has the directives of a list of entries, and no others. -/
structure Tabulates (role : Directive.Role) (cs : List Column) (table : List (Path × Directives)) :
    Prop where
  /-- There is nothing at a path of which no entry names a child. -/
  find?_eq_none (q : Path) : Dictionary.find? q table = none ↔ namesBelow q cs = []
  /-- The children named stand in the order in which they are first named. -/
  keys_eq {q : Path} {t : Directives} : Dictionary.find? q table = some t →
    Dictionary.keys t = (namesBelow q cs).eraseDups
  /-- Under each child stands the directive of the last entry that names it. -/
  find?_eq_some {q p : Path} {t : Directives} : Dictionary.find? q table = some t →
    p ∈ namesBelow q cs →
      ∃ e d, lastNaming p cs = some e ∧ Directive.ofColumn role e = .ok d ∧ Dictionary.find? p t = some d
  /-- A directive stands under the path that it writes at. It writes at one location, and reads one. -/
  stored {q p : Path} {t : Directives} {d : Directive} : Dictionary.find? q table = some t →
    (p, d) ∈ t → d.path = p ∧ p.parent = .ok q ∧ d.base ≠ .wildcard ∧ d.sourceBase ≠ .wildcard

theorem filter_parent_eq (q : Path) (ds : List Directive) :
    ds.filter (fun d => d.parent = q) = ds.filter fun d => q.isChildOf d.path := by
  apply List.filter_congr
  intro d _
  rw [Directive.path, Path.isChildOf, Bool.eq_iff_iff]
  simp

/-- The paths of the directives with a parent are the names below it. -/
theorem map_path_filter_parent (h : directives role cs = .ok ds) (q : Path) :
    (ds.filter fun d => d.parent = q).map Directive.path = namesBelow q cs := by
  rw [filter_parent_eq, namesBelow, ← map_path_of_directives h, List.filter_map]
  rfl

/-- Under a path stands the last directive that writes at it. -/
theorem find?_of_find?_directiveTable {p q : Path} {t : Directives}
    (ht : Dictionary.find? q (directiveTable ds) = some t) (hp : p.parent = .ok q) :
    Dictionary.find? p t = (ds.filter fun d => d.path == p).getLast? := by
  rw [find?_directiveTable] at ht
  split at ht
  · cases ht
  · cases ht
    -- a directive that writes at `p` has the parent `q`
    have hparent : ∀ d : Directive, d.path = p → d.parent = q := by
      intro d hd
      rw [← hd] at hp
      exact Except.ok.inj hp
    have hfilter : (ds.filter fun d => d.parent = q).filter (fun d => d.path = p) =
        ds.filter fun d => d.path == p := by
      rw [List.filter_filter]
      apply List.filter_congr
      intro d _
      rw [Bool.eq_iff_iff]
      simpa using hparent d
    rw [Dictionary.find?_ofList, List.filter_map, List.getLast?_map, Option.map_map]
    show Option.map id ((ds.filter fun d => d.parent = q).filter fun d => d.path = p).getLast? = _
    rw [hfilter, Option.map_id, id]

/-- The table of the directives of a list of entries has these directives and no others. -/
theorem tabulates_directiveTable (h : directives role cs = .ok ds) :
    Tabulates role cs (directiveTable ds) where
  find?_eq_none q := by
    rw [find?_directiveTable, ← map_path_filter_parent h]
    split
    · next hnil => simp [hnil]
    · next hne => simpa using hne
  keys_eq {q t} ht := by
    rw [find?_directiveTable] at ht
    split at ht
    · cases ht
    · cases ht
      have hkeys : Dictionary.keys ((ds.filter fun d => d.parent = q).map fun d => (d.path, d)) =
          namesBelow q cs := by
        rw [← map_path_filter_parent h, Dictionary.keys, List.map_map]
        rfl
      rw [Dictionary.keys_ofList, hkeys]
  find?_eq_some {q p t} ht hp := by
    obtain ⟨hname, hchild⟩ := List.mem_filter.1 hp
    have hfind := find?_of_find?_directiveTable ht (Path.isChildOf_iff.1 hchild)
    have hne : ds.filter (fun d => d.path == p) ≠ [] := by
      rw [← map_path_of_directives h] at hname
      obtain ⟨d, hd, hpath⟩ := List.mem_map.1 hname
      exact List.ne_nil_of_mem (List.mem_filter.2 ⟨hd, by simp [hpath]⟩)
    obtain ⟨d, hd⟩ := Option.ne_none_iff_exists'.1 (mt List.getLast?_eq_none_iff.1 hne)
    obtain ⟨e, he, hed⟩ := (getLast?_of_mapM_eq_ok (directives_naming h (· == p)) d).1 hd
    exact ⟨e, d, he, hed, by rw [hfind, hd]⟩
  stored {q p t d} ht hd := by
    obtain ⟨hmem, hparent, hpath⟩ := mem_of_find?_directiveTable ht hd
    obtain ⟨e, _, hd'⟩ := exists_of_mem_of_mapM_eq_ok h hmem
    obtain ⟨hbase, hsource⟩ := Directive.ne_wildcard_of_ofColumn hd'
    refine ⟨hpath, ?_, hbase, hsource⟩
    rw [← hpath, ← hparent]
    rfl

/-- Nothing is added at a path of which no child is named. -/
theorem addAt_of_namesBelow_eq_nil {c : Config} {S : Schema} (h : compile c = .ok S) {q : Path}
    (hnil : namesBelow q c.addColumns = []) : S.addAt q = [] := by
  obtain ⟨keep, add, _, hadd, rfl⟩ := eq_of_compile h
  have hnone : Dictionary.find? q (directiveTable add) = none :=
    ((tabulates_directiveTable hadd).find?_eq_none q).2 hnil
  simp [addAt, hnone]

/-- Lists whose entries name the same below `q`, entry for entry, have the same directives there. -/
theorem find?_directiveTable_eq {cs' : List Column} {ds' : List Directive} (h : directives role cs = .ok ds)
    (h' : directives role cs' = .ok ds') {q : Path} (heq : naming q.isChildOf cs = naming q.isChildOf cs') :
    Dictionary.find? q (directiveTable ds) = Dictionary.find? q (directiveTable ds') := by
  have hchosen := directives_naming h q.isChildOf
  have hchosen' := directives_naming h' q.isChildOf
  have hfilter : ds.filter (fun d => d.parent = q) = ds'.filter fun d => d.parent = q := by
    rw [filter_parent_eq, filter_parent_eq]
    rw [heq, hchosen'] at hchosen
    exact (Except.ok.inj hchosen).symm
  rw [find?_directiveTable, find?_directiveTable, hfilter]

/-! ## Sets of dropped paths -/

/-- However often a path is dropped, it stands in a set once. -/
theorem nodup_find?_foldl_insertDropped {q : Path} {ps : List Path} {table : List (Path × List Path)}
    (h : ((Dictionary.find? q table).getD []).Nodup) :
    ((Dictionary.find? q (ps.foldl insertDropped table)).getD []).Nodup := by
  induction ps generalizing table with
  | nil => exact h
  | cons p ps ih =>
    apply ih
    cases p with
    | root => exact h
    | child parent s =>
      by_cases hq : q = parent
      · subst hq
        rw [insertDropped, Dictionary.find?_insert_self, Option.getD_some]
        exact h.insert
      · rw [insertDropped, Dictionary.find?_insert_of_ne hq]
        exact h

theorem nodup_dropAt_of_compile {c : Config} {S : Schema} (h : compile c = .ok S) (q : Path) :
    ((S.dropAt q).getD []).Nodup := by
  obtain ⟨keep, add, _, _, rfl⟩ := eq_of_compile h
  exact nodup_find?_foldl_insertDropped List.nodup_nil

/-- The paths dropped at `q` are the dropped names right below it. -/
theorem mem_dropAt_iff_mem_namesBelow {c : Config} {S : Schema} (h : compile c = .ok S) {p q : Path} :
    p ∈ (S.dropAt q).getD [] ↔ p ∈ namesBelow q c.dropColumns := by
  rw [mem_dropAt_of_compile h, namesBelow, List.mem_filter]
  have hchild : (∃ s, p = q.child s) ↔ q.isChildOf p := by
    cases p with
    | root => simp [Path.isChildOf]
    | child p s => simp [Path.isChildOf]
  rw [hchild]

theorem dropAt_eq_none_iff {c : Config} {S : Schema} (h : compile c = .ok S) (q : Path) :
    S.dropAt q = none ↔ namesBelow q c.dropColumns = [] := by
  have hmem : ∀ p, p ∈ (S.dropAt q).getD [] ↔ p ∈ namesBelow q c.dropColumns :=
    fun p => mem_dropAt_iff_mem_namesBelow h
  constructor
  · intro hnone
    apply List.eq_nil_iff_forall_not_mem.2
    intro p hp
    have hdrop := (hmem p).2 hp
    simp [hnone] at hdrop
  · intro hnil
    cases hdrop : S.dropAt q with
    | none => rfl
    | some dropped =>
      -- a set that is there is not empty
      have hempty : dropped = [] := by
        apply List.eq_nil_iff_forall_not_mem.2
        intro p hp
        have hname : p ∈ namesBelow q c.dropColumns := (hmem p).1 (by simpa [hdrop] using hp)
        rw [hnil] at hname
        cases hname
      exact absurd (hempty ▸ hdrop) ((coherent_of_compile h).dropAt_ne q)

/-! ## Schemas -/

/-- A schema says what a configuration says. -/
structure Represents (c : Config) (S : Schema) : Prop where
  /-- The paths that are entered are those that lead to a name, the root aside. -/
  visits_iff (p : Path) : S.visits p ↔ p ≠ .root ∧ ∃ n ∈ c.names, p.segments <+: n.segments
  /-- Nothing is kept if any column is dropped, also if that is a field. -/
  keep_eq_nil : c.dropColumns ≠ [] → S.keep = []
  drop_eq_nil : c.dropColumns = [] → S.drop = []
  keep : c.dropColumns = [] → Tabulates .keep c.columns S.keep
  add : Tabulates .add c.addColumns S.add
  /-- There is no set at a path of which no child is dropped. -/
  dropAt_eq_none (q : Path) : S.dropAt q = none ↔ namesBelow q c.dropColumns = []
  /-- A set has the children of its path that are dropped, each of them once. -/
  dropAt_eq_some {q : Path} {dropped : List Path} : S.dropAt q = some dropped →
    dropped.Nodup ∧ ∀ p, p ∈ dropped ↔ p ∈ namesBelow q c.dropColumns

/-- A compiled schema says what its configuration says. -/
theorem represents_of_compile {c : Config} {S : Schema} (h : compile c = .ok S) : Represents c S := by
  obtain ⟨keep, add, hkeep, hadd, hS⟩ := eq_of_compile h
  refine ⟨?visits, ?keepNil, ?dropNil, ?keep, ?add, dropAt_eq_none_iff h, ?drop⟩
  case visits =>
    intro p
    rw [visits_iff_of_compile h]
    simp only [Path.mem_prefixes_iff]
    constructor
    · rintro ⟨n, hn, hroot, hprefix⟩
      exact ⟨hroot, n, hn, hprefix⟩
    · rintro ⟨hroot, n, hn, hprefix⟩
      exact ⟨n, hn, hroot, hprefix⟩
  case keepNil =>
    intro hdrop
    rw [keptDirectives_of_drops hdrop] at hkeep
    cases hkeep
    rw [hS]
    rfl
  case dropNil =>
    intro hdrop
    rw [hS, hdrop]
    rfl
  case keep =>
    intro hdrop
    rw [keptDirectives_of_no_drops hdrop] at hkeep
    rw [hS]
    exact tabulates_directiveTable hkeep
  case add =>
    rw [hS]
    exact tabulates_directiveTable hadd
  case drop =>
    intro q dropped hdrop
    constructor
    · have hnodup := nodup_dropAt_of_compile h q
      simpa [hdrop] using hnodup
    · intro p
      have hmem := mem_dropAt_iff_mem_namesBelow h (p := p) (q := q)
      simpa [hdrop] using hmem

/-- A position is named twice, with leading zeros the second time: it keeps its place and takes the second directive. -/
theorem represents_of_compile_renamed :
    let c : Config := ⟨[⟨"$.a[7]", none, none, none⟩, ⟨"a", none, none, none⟩, ⟨"$.a.k", none, none, none⟩,
      ⟨"$.a[007]", none, none, some "$.b[3]"⟩], [⟨"$.a.n", none, none, some "$.k"⟩], []⟩
    let a := Path.field "a"
    let renamed : Directive := ⟨a, .index 7, none, none, some ((Path.field "b").index 3)⟩
    let S : Schema := ⟨[a, a.index 7, a.key "k", a.key "n"],
      [(a, [(a.index 7, renamed), (a.key "k", ⟨a, .name "k", none, none, none⟩)])],
      [(a, [(a.key "n", ⟨a, .name "n", none, none, some (Path.field "k")⟩)])], []⟩
    compile c = .ok S ∧ namesBelow a c.columns = [a.index 7, a.key "k", a.index 7] ∧ Represents c S := by
  intro c a renamed S
  have h : compile c = .ok S := by cbv
  exact ⟨h, by cbv, represents_of_compile h⟩

end Schema

end RecordFilter
