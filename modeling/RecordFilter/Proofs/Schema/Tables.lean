import RecordFilter.Schema.Compile
import RecordFilter.Proofs.Dictionary
import RecordFilter.Proofs.Directive
import RecordFilter.Proofs.Path.Prefixes

namespace RecordFilter

/-! # What compiling puts into a schema

The tables are built entry by entry. Looked up at a path, they give the entries whose names have that path as parent, and
nothing else (`find?_directiveTable`, `mem_find?_dropTable`). Visiting relies on less than that, which is gathered in
`Coherent`: every compiled schema is coherent.
-/

namespace Schema

/-! ## The tables -/

/-- What stands at `p` after directives were put into a table: those with the parent `p`, in turn. -/
theorem find?_foldl_insertDirective (p : Path) (ds : List Directive)
    (table : List (Path × Directives)) :
    Dictionary.find? p (ds.foldl insertDirective table) =
      if ds.filter (·.parent = p) = [] then Dictionary.find? p table
      else some ((ds.filter (·.parent = p)).foldl (fun t d => Dictionary.insert d.path d t)
        ((Dictionary.find? p table).getD [])) := by
  induction ds generalizing table with
  | nil => rfl
  | cons d ds ih =>
    rw [List.foldl_cons, ih]
    -- the first directive is put in at `p`, or it changes nothing there
    by_cases hd : d.parent = p
    · have hfind : Dictionary.find? p (insertDirective table d) =
          some (Dictionary.insert d.path d ((Dictionary.find? p table).getD [])) := by
        rw [insertDirective, hd, Dictionary.find?_insert_self]
      simp only [hfind, hd, List.filter_cons, decide_true, if_true, Option.getD_some]
      split
      · next hnil => simp [hnil]
      · simp
    · have hfind : Dictionary.find? p (insertDirective table d) = Dictionary.find? p table :=
        Dictionary.find?_insert_of_ne (fun h => hd h.symm) _ _
      simp only [hfind, hd, List.filter_cons, decide_false, Bool.false_eq_true, if_false]

/-- The directives at `p` are those with the parent `p`. -/
theorem find?_directiveTable (p : Path) (ds : List Directive) :
    Dictionary.find? p (directiveTable ds) =
      if ds.filter (·.parent = p) = [] then none
      else some (Dictionary.ofList ((ds.filter (·.parent = p)).map fun d => (d.path, d))) := by
  rw [directiveTable, find?_foldl_insertDirective, Dictionary.ofList, List.foldl_map]
  rfl

/-- An entry of a table holds a directive with that parent, under the path that it writes at. -/
theorem mem_of_find?_directiveTable {p q : Path} {d : Directive} {ds : List Directive}
    {t : Directives} (h : Dictionary.find? p (directiveTable ds) = some t) (hd : (q, d) ∈ t) :
    d ∈ ds ∧ d.parent = p ∧ d.path = q := by
  rw [find?_directiveTable] at h
  split at h
  · cases h
  · cases h
    rcases List.mem_map.1 (Dictionary.mem_of_mem_ofList hd) with ⟨e, he, heq⟩
    cases heq
    rcases List.mem_filter.1 he with ⟨hmem, hparent⟩
    exact ⟨hmem, of_decide_eq_true hparent, rfl⟩

/-- In each entry of a table there is one directive for a path. -/
theorem nodup_keys_of_find?_directiveTable {p : Path} {ds : List Directive} {t : Directives}
    (h : Dictionary.find? p (directiveTable ds) = some t) : (Dictionary.keys t).Nodup := by
  rw [find?_directiveTable] at h
  split at h
  · cases h
  · cases h
    exact Dictionary.nodup_keys_ofList _

/-- There is no empty entry in a table of directives. -/
theorem find?_directiveTable_ne_nil (p : Path) (ds : List Directive) :
    Dictionary.find? p (directiveTable ds) ≠ some [] := by
  rw [find?_directiveTable]
  split
  · exact fun h => nomatch h
  · next hne =>
    intro h
    exact Dictionary.ofList_ne_nil (by simpa using hne) (Option.some.inj h)

/-- One more dropped path stands at its parent and nowhere else. -/
theorem mem_find?_insertDropped {p q x : Path} {table : List (Path × List Path)} :
    q ∈ (Dictionary.find? p (insertDropped table x)).getD [] ↔
      q ∈ (Dictionary.find? p table).getD [] ∨ q = x ∧ ∃ s, x = p.child s := by
  cases x with
  | root => simp [insertDropped]
  | child parent s =>
    by_cases hp : parent = p
    · subst hp
      simp only [insertDropped, Dictionary.find?_insert_self, Option.getD_some,
        List.mem_insert_iff, Path.child.injEq, true_and, exists_eq', and_true]
      exact Or.comm
    · have hp' : p ≠ parent := fun h => hp h.symm
      simp [insertDropped, Dictionary.find?_insert_of_ne hp', hp]

theorem mem_find?_foldl_insertDropped {p q : Path} {ps : List Path}
    {table : List (Path × List Path)} :
    q ∈ (Dictionary.find? p (ps.foldl insertDropped table)).getD [] ↔
      q ∈ (Dictionary.find? p table).getD [] ∨ q ∈ ps ∧ ∃ s, q = p.child s := by
  induction ps generalizing table with
  | nil => simp
  | cons x ps ih =>
    rw [List.foldl_cons, ih, mem_find?_insertDropped, List.mem_cons]
    constructor
    · rintro ((htable | ⟨rfl, hs⟩) | ⟨hps, hs⟩)
      · exact Or.inl htable
      · exact Or.inr ⟨Or.inl rfl, hs⟩
      · exact Or.inr ⟨Or.inr hps, hs⟩
    · rintro (htable | ⟨rfl | hps, hs⟩)
      · exact Or.inl (Or.inl htable)
      · exact Or.inl (Or.inr ⟨rfl, hs⟩)
      · exact Or.inr ⟨hps, hs⟩

/-- The paths dropped at `p` are the children of `p` among those that were put in. -/
theorem mem_find?_dropTable {p q : Path} {ps : List Path} :
    q ∈ (Dictionary.find? p (dropTable ps)).getD [] ↔ q ∈ ps ∧ ∃ s, q = p.child s := by
  rw [dropTable, mem_find?_foldl_insertDropped]
  simp [Dictionary.find?]

/-- There is no empty entry in a table of dropped paths. -/
theorem find?_foldl_insertDropped_ne_nil {p : Path} {ps : List Path}
    {table : List (Path × List Path)} (h : Dictionary.find? p table ≠ some []) :
    Dictionary.find? p (ps.foldl insertDropped table) ≠ some [] := by
  induction ps generalizing table with
  | nil => exact h
  | cons x ps ih =>
    apply ih
    cases x with
    | root => exact h
    | child parent s =>
      -- an entry that is touched holds the path that was put in
      by_cases hp : p = parent
      · subst hp
        intro hfind
        rw [insertDropped, Dictionary.find?_insert_self] at hfind
        have hmem : p.child s ∈ ([] : List Path) := by
          rw [← Option.some.inj hfind]
          exact List.mem_insert_self
        cases hmem
      · rw [insertDropped, Dictionary.find?_insert_of_ne hp]
        exact h

/-! ## The names of a configuration -/

/-- The paths that the entries of a list name. -/
def names (cs : List Column) : List Path :=
  (nested cs).filterMap fun c => (Path.parse c.name).toOption

theorem names_of_namedPaths {cs : List Column} {ps : List Path} (h : namedPaths cs = .ok ps) :
    ps = names cs := by
  have hread : (nested cs).map (fun c => Directive.parsePath c.name) = ps.map .ok := mapM_eq_ok.1 h
  -- reading a name for a schema fails where reading it as a path does, with another error
  have hoption : ∀ c : Column, (Directive.parsePath c.name).toOption = (Path.parse c.name).toOption := by
    intro c
    unfold Directive.parsePath
    cases Path.parse c.name with
    | error e => rfl
    | ok p => rfl
  calc ps
      = (ps.map (Except.ok (ε := ColumnError))).filterMap Except.toOption := by
        simp [List.filterMap_map, Function.comp_def, Except.toOption]
    _ = names cs := by
        rw [← hread, List.filterMap_map, names]
        exact congrArg (fun f => (nested cs).filterMap f) (funext hoption)

/-- Nothing but the names of the entries is read to find the paths. -/
theorem namedPaths_eq_of_names {cs cs' : List Column} (h : cs'.map Column.name = cs.map Column.name) :
    namedPaths cs' = namedPaths cs := by
  have hread : ∀ cs : List Column, namedPaths cs =
      ((cs.map Column.name).filter Path.isNestedName).mapM Directive.parsePath := by
    intro cs
    rw [namedPaths, nested, List.filter_map, List.mapM_map]
    rfl
  rw [hread, hread, h]

/-- Each directive of a list writes at a path that an entry of the list names. -/
theorem path_mem_names {role : Directive.Role} {cs : List Column} {ds : List Directive}
    (h : directives role cs = .ok ds) {d : Directive} (hd : d ∈ ds) : d.path ∈ names cs := by
  rcases exists_of_mem_of_mapM_eq_ok h hd with ⟨c, hc, hdir⟩
  have hparse : (Path.parse c.name).toOption = some d.path := by
    rw [Directive.parse_name_of_ofColumn hdir]
    rfl
  exact List.mem_filterMap.2 ⟨c, hc, hparse⟩

theorem nested_eq_nil {cs : List Column} (h : ∀ e ∈ cs, e.isNested = false) : nested cs = [] := by
  apply List.filter_eq_nil_iff.2
  intro e he
  simp [h e he]

/-- A list without paths has no directives. -/
theorem directives_of_nested_eq_nil {role : Directive.Role} {cs : List Column} {ds : List Directive}
    (h : directives role cs = .ok ds) (hcs : nested cs = []) : ds = [] := by
  rw [directives, hcs, List.mapM_nil] at h
  cases h
  rfl

end Schema

namespace Config

/-- The paths that the entries of a configuration name, in any of its lists. -/
def names (c : Config) : List Path :=
  Schema.names c.columns ++ Schema.names c.addColumns ++ Schema.names c.dropColumns

/-- A name is read from a text. -/
theorem exists_parse_of_mem_names {c : Config} {n : Path} (hn : n ∈ c.names) : ∃ t, Path.parse t = .ok n := by
  have hlist : ∃ cs, n ∈ Schema.names cs := by
    rcases List.mem_append.1 hn with hfirst | hdropped
    · rcases List.mem_append.1 hfirst with hkept | hadded
      · exact ⟨_, hkept⟩
      · exact ⟨_, hadded⟩
    · exact ⟨_, hdropped⟩
  rcases hlist with ⟨cs, hcs⟩
  rcases List.mem_filterMap.1 hcs with ⟨e, _, he⟩
  refine ⟨e.name, ?_⟩
  cases hparse : Path.parse e.name with
  | ok p =>
    rw [hparse] at he
    cases he
    rfl
  | error _ =>
    rw [hparse] at he
    cases he

end Config

namespace Schema

/-! ## Compiling -/

/-- The directives that keep columns. There are none when columns are dropped. -/
def keptDirectives (c : Config) : Except ColumnError (List Directive) :=
  if c.dropColumns.isEmpty then directives .keep c.columns else .ok []

theorem keptDirectives_of_drops {c : Config} (hdrop : c.dropColumns ≠ []) : keptDirectives c = .ok [] := by
  have hempty : c.dropColumns.isEmpty = false := by simpa using hdrop
  simp [keptDirectives, hempty]

theorem keptDirectives_of_no_drops {c : Config} (hdrop : c.dropColumns = []) :
    keptDirectives c = directives .keep c.columns := by
  simp [keptDirectives, hdrop]

/-- Compiling reads the names of all lists, then the directives that keep and then those that add. -/
theorem compile_eq (c : Config) : compile c = do
    let kept ← namedPaths c.columns
    let added ← namedPaths c.addColumns
    let dropped ← namedPaths c.dropColumns
    let keep ← keptDirectives c
    let add ← directives .add c.addColumns
    return ⟨visitedPaths (kept ++ added ++ dropped), directiveTable keep, directiveTable add,
      dropTable dropped⟩ := by
  unfold compile keptDirectives
  split
  · rfl
  · rfl

/-- A compiled schema is made of the names of the configuration and of its directives. -/
theorem eq_of_compile {c : Config} {S : Schema} (h : compile c = .ok S) :
    ∃ keep add, keptDirectives c = .ok keep ∧ directives .add c.addColumns = .ok add ∧
      S = ⟨visitedPaths c.names, directiveTable keep, directiveTable add,
        dropTable (names c.dropColumns)⟩ := by
  rw [compile_eq] at h
  rcases bind_eq_ok.1 h with ⟨kept, hkept, h⟩
  rcases bind_eq_ok.1 h with ⟨added, hadded, h⟩
  rcases bind_eq_ok.1 h with ⟨dropped, hdropped, h⟩
  rcases bind_eq_ok.1 h with ⟨keep, hkeep, h⟩
  rcases bind_eq_ok.1 h with ⟨add, hadd, h⟩
  cases h
  refine ⟨keep, add, hkeep, hadd, ?_⟩
  rw [Config.names, names_of_namedPaths hkept, names_of_namedPaths hadded,
    names_of_namedPaths hdropped]

/-- The entered paths are those on the way to a name. -/
theorem visits_iff_of_compile {c : Config} {S : Schema} (h : compile c = .ok S) {p : Path} :
    S.visits p ↔ ∃ n ∈ c.names, p ∈ n.prefixes := by
  rcases eq_of_compile h with ⟨keep, add, _, _, rfl⟩
  simp [visits, visitedPaths, List.mem_eraseDups]

/-- What is dropped at a path are its children among the dropped names. -/
theorem mem_dropAt_of_compile {c : Config} {S : Schema} (h : compile c = .ok S) {p q : Path} :
    q ∈ (S.dropAt p).getD [] ↔ q ∈ names c.dropColumns ∧ ∃ s, q = p.child s := by
  rcases eq_of_compile h with ⟨keep, add, _, _, rfl⟩
  exact mem_find?_dropTable

/-- Nothing is kept where columns are dropped. -/
theorem keepAt_of_drops {c : Config} {S : Schema} (h : compile c = .ok S)
    (hdrop : c.dropColumns ≠ []) (p : Path) : S.keepAt p = none := by
  rcases eq_of_compile h with ⟨keep, add, hkeep, _, rfl⟩
  rw [keptDirectives_of_drops hdrop] at hkeep
  cases hkeep
  rfl

/-- Nothing is added where no added entry is a path. -/
theorem addAt_of_nested_eq_nil {c : Config} {S : Schema} (h : compile c = .ok S)
    (hadd : nested c.addColumns = []) (p : Path) : S.addAt p = [] := by
  rcases eq_of_compile h with ⟨keep, add, _, hadd', rfl⟩
  simp [addAt, directives_of_nested_eq_nil hadd' hadd, directiveTable, Dictionary.find?]

/-! ## Coherence -/

/-- The directives that write below a path, those that keep and those that add. -/
def directivesAt (S : Schema) (p : Path) : List Directive := (S.keepAt p).getD [] ++ S.addAt p

/-- What visiting relies on. -/
structure Coherent (S : Schema) : Prop where
  /-- A directive stands at the parent of the path that it writes at. -/
  parent_eq {p : Path} {d : Directive} : d ∈ S.directivesAt p → d.parent = p
  visits_directive {p : Path} {d : Directive} : d ∈ S.directivesAt p → S.visits d.path
  visits_dropped {p q : Path} : q ∈ (S.dropAt p).getD [] → S.visits q
  dropped_eq {p q : Path} : q ∈ (S.dropAt p).getD [] → ∃ s, q = p.child s
  /-- No table is empty. -/
  keepAt_ne (p : Path) : S.keepAt p ≠ some []
  dropAt_ne (p : Path) : S.dropAt p ≠ some []
  /-- No schema both keeps and drops. -/
  exclusive (p : Path) : S.keepAt p = none ∨ S.dropAt p = none
  /-- The paths above an entered path are entered, but for the root. -/
  visits_parent {p : Path} {s : Segment} : S.visits (p.child s) → p ≠ .root → S.visits p

/-- What writes below a path stands there in a table, of what is kept or of what is added. -/
theorem exists_of_mem_directivesAt {S : Schema} {p : Path} {d : Directive}
    (hd : d ∈ S.directivesAt p) :
    ∃ q t, (Dictionary.find? p S.keep = some t ∨ Dictionary.find? p S.add = some t) ∧ (q, d) ∈ t := by
  rcases List.mem_append.1 hd with hkept | hadded
  · cases hfind : Dictionary.find? p S.keep with
    | none => simp [keepAt, hfind] at hkept
    | some t =>
      simp only [keepAt, hfind, Option.map_some, Option.getD_some, List.mem_map] at hkept
      rcases hkept with ⟨⟨q, _⟩, hmem, rfl⟩
      exact ⟨q, t, Or.inl rfl, hmem⟩
  · cases hfind : Dictionary.find? p S.add with
    | none => simp [addAt, hfind] at hadded
    | some t =>
      simp only [addAt, hfind, Option.getD_some, List.mem_map] at hadded
      rcases hadded with ⟨⟨q, _⟩, hmem, rfl⟩
      exact ⟨q, t, Or.inr rfl, hmem⟩

/-- What writes below a path stands in the tables. -/
theorem exists_mem_tables_of_mem_directivesAt {S : Schema} {p : Path} {d : Directive} (hd : d ∈ S.directivesAt p) :
    ∃ q t, (p, t) ∈ S.keep ++ S.add ∧ (q, d) ∈ t := by
  rcases exists_of_mem_directivesAt hd with ⟨q, t, hkeep | hadd, hmem⟩
  · exact ⟨q, t, List.mem_append_left _ (Dictionary.mem_of_find? hkeep), hmem⟩
  · exact ⟨q, t, List.mem_append_right _ (Dictionary.mem_of_find? hadd), hmem⟩

/-- What writes below a path is a directive of a list of the configuration, with that path as parent. -/
theorem exists_directives_of_mem_directivesAt {c : Config} {S : Schema} (h : compile c = .ok S) {p : Path}
    {d : Directive} (hd : d ∈ S.directivesAt p) :
    d.parent = p ∧ ∃ role cs ds, (cs = c.columns ∨ cs = c.addColumns) ∧ directives role cs = .ok ds ∧ d ∈ ds := by
  rcases eq_of_compile h with ⟨keep, add, hkeep, hadd, rfl⟩
  rcases exists_of_mem_directivesAt hd with ⟨q, t, hfind | hfind, hmem⟩
  · rcases mem_of_find?_directiveTable hfind hmem with ⟨hds, hparent, _⟩
    unfold keptDirectives at hkeep
    split at hkeep
    · exact ⟨hparent, .keep, c.columns, keep, Or.inl rfl, hkeep, hds⟩
    · -- columns are dropped, so there is nothing that keeps
      cases hkeep
      cases hds
  · rcases mem_of_find?_directiveTable hfind hmem with ⟨hds, hparent, _⟩
    exact ⟨hparent, .add, c.addColumns, add, Or.inr rfl, hadd, hds⟩

/-- What writes below a path was configured, with that path as parent. -/
theorem mem_names_of_mem_directivesAt {c : Config} {S : Schema} (h : compile c = .ok S) {p : Path}
    {d : Directive} (hd : d ∈ S.directivesAt p) : d.parent = p ∧ d.path ∈ c.names := by
  rcases exists_directives_of_mem_directivesAt h hd with ⟨hparent, role, cs, ds, hcs, hds, hmem⟩
  have hname : d.path ∈ names cs := path_mem_names hds hmem
  refine ⟨hparent, ?_⟩
  rcases hcs with rfl | rfl
  · simp [Config.names, hname]
  · simp [Config.names, hname]

/-- What writes below a path is the directive of an entry. -/
theorem exists_ofColumn_of_mem_directivesAt {c : Config} {S : Schema} (h : compile c = .ok S) {p : Path}
    {d : Directive} (hd : d ∈ S.directivesAt p) :
    ∃ role, ∃ e ∈ c.columns ++ c.addColumns, Directive.ofColumn role e = .ok d := by
  rcases exists_directives_of_mem_directivesAt h hd with ⟨_, role, cs, ds, hcs, hds, hmem⟩
  rcases exists_of_mem_of_mapM_eq_ok hds hmem with ⟨e, he, hdirective⟩
  have hlist : e ∈ cs := (List.mem_filter.1 he).1
  refine ⟨role, e, ?_, hdirective⟩
  rcases hcs with rfl | rfl
  · exact List.mem_append_left _ hlist
  · exact List.mem_append_right _ hlist

/-- What stands at a path in a table of what is kept or added is a directive for each of some paths. -/
theorem table_of_compile {c : Config} {S : Schema} (h : compile c = .ok S) {p : Path} {t : Directives}
    (ht : Dictionary.find? p S.keep = some t ∨ Dictionary.find? p S.add = some t) :
    (Dictionary.keys t).Nodup ∧ ∀ e ∈ t, e.1 = e.2.path ∧ e.2.parent = p := by
  rcases eq_of_compile h with ⟨keep, add, _, _, rfl⟩
  have htable : ∃ ds, Dictionary.find? p (directiveTable ds) = some t := by
    rcases ht with hkeep | hadd
    · exact ⟨keep, hkeep⟩
    · exact ⟨add, hadd⟩
  rcases htable with ⟨ds, hds⟩
  refine ⟨nodup_keys_of_find?_directiveTable hds, ?_⟩
  rintro ⟨q, d⟩ hmem
  rcases mem_of_find?_directiveTable hds hmem with ⟨_, hparent, hpath⟩
  exact ⟨hpath.symm, hparent⟩

theorem coherent_of_compile {c : Config} {S : Schema} (h : compile c = .ok S) : S.Coherent where
  parent_eq hd := (mem_names_of_mem_directivesAt h hd).1
  visits_directive {p d} hd := by
    have hname := (mem_names_of_mem_directivesAt h hd).2
    exact (visits_iff_of_compile h).2 ⟨d.path, hname, Path.self_mem_prefixes (Path.child_ne_root _ _)⟩
  visits_dropped {p q} hq := by
    rcases (mem_dropAt_of_compile h).1 hq with ⟨hname, s, rfl⟩
    have hself := Path.self_mem_prefixes (Path.child_ne_root p s)
    exact (visits_iff_of_compile h).2 ⟨p.child s, by simp [Config.names, hname], hself⟩
  dropped_eq hq := ((mem_dropAt_of_compile h).1 hq).2
  keepAt_ne p := by
    rcases eq_of_compile h with ⟨keep, add, _, _, rfl⟩
    intro hkeep
    rcases Option.map_eq_some_iff.1 hkeep with ⟨t, ht, hnil⟩
    rw [List.map_eq_nil_iff.1 hnil] at ht
    exact find?_directiveTable_ne_nil p keep ht
  dropAt_ne p := by
    rcases eq_of_compile h with ⟨keep, add, _, _, rfl⟩
    exact find?_foldl_insertDropped_ne_nil (fun hnil => nomatch hnil)
  exclusive p := by
    -- the dropped columns decide for the whole schema, even those that are no paths
    by_cases hdrop : c.dropColumns = []
    · right
      rcases eq_of_compile h with ⟨keep, add, _, _, rfl⟩
      simp [dropAt, hdrop, names, nested, dropTable, Dictionary.find?]
    · exact Or.inl (keepAt_of_drops h hdrop p)
  visits_parent hvisit hp := by
    rcases (visits_iff_of_compile h).1 hvisit with ⟨n, hn, hprefix⟩
    exact (visits_iff_of_compile h).2 ⟨n, hn, Path.mem_prefixes_of_child hprefix hp⟩

end Schema

end RecordFilter
