import RecordFilter.Proofs.Path.Printing
import RecordFilter.Proofs.Schema.Tables

namespace RecordFilter

/-! # What compiling checks

Compiling makes a fixed sequence of checks (`Config.checks`): first the names of all lists, then the directives of what is
kept, unless columns are dropped, and then those of what is added. The first check that fails gives the error, and if none
fails there is a schema (`failure?_compile`). Putting directives and dropped paths into tables is no check: they are put
in at the parents of their paths, and the path that an entry names is never the root, which alone has no parent
(`compileInTurn_eq_compile`).
-/

/-- What is checked of an entry. -/
inductive Check where
  /-- Its name is a path. -/
  | name (e : Column)
  /-- It has a directive. -/
  | directive (role : Directive.Role) (e : Column)

/-- The error of a check that fails. -/
def Check.error? : Check → Option ColumnError
  | .name e => failure? (Directive.parsePath e.name)
  | .directive role e => failure? (Directive.ofColumn role e)

/-- What is checked of a configuration, in order. Fields are passed over. -/
def Config.checks (c : Config) : List Check :=
  (Schema.nested (c.columns ++ c.addColumns ++ c.dropColumns)).map .name ++
    (if c.dropColumns = [] then (Schema.nested c.columns).map (.directive .keep) else []) ++
    (Schema.nested c.addColumns).map (.directive .add)

namespace Path

/-- The root has one text only. -/
theorem parse_eq_ok_root_iff {t : String} : parse t = .ok root ↔ t = "$" := by
  constructor
  · intro h
    obtain ⟨s, parts, hs, hsplit, hsegments⟩ := splits_of_parse h
    have hparts : parts = [] := List.map_eq_nil_iff.1 hsegments.symm
    have hrest : s = [] := by
      rw [hsplit.eq_append, hparts]
      rfl
    rw [← String.toList_inj, hs, hrest]
    rfl
  · rintro rfl
    cbv

/-- A name that starts like a path into a field is not the root. -/
theorem ne_root_of_isNestedName {t : String} {p : Path} (hnested : isNestedName t) (h : parse t = .ok p) :
    p ≠ root := by
  rintro rfl
  rw [parse_eq_ok_root_iff.1 h] at hnested
  exact absurd hnested (by decide)

end Path

namespace Directive

variable {role : Role} {e : Column}

theorem parsePath_ne_rootHasNoParent (text : String) : parsePath text ≠ .error (.path .rootHasNoParent) := by
  intro h
  rw [parsePath, Path.parse] at h
  cases hread : Path.read text.toList with
  | error fault =>
    rw [hread] at h
    cases h
  | ok p =>
    rw [hread] at h
    cases h

theorem resolveDefault_ne_path (name : String) (type : ColumnType) (literal : Json.Value) (error : Path.Error) :
    resolveDefault name type literal ≠ .error (.path error) := by
  intro h
  unfold resolveDefault at h
  split at h
  · cases h
  · cases h
  · cases h
  · split at h
    · cases h
    · cases h

/-- A directive at a path that is not the root misses a parent only where its source is the root. -/
theorem source_of_ofPath_rootHasNoParent {path : Path} {type : Option ColumnType} {default : Option Json.Value}
    {source : Option Path} (hpath : path ≠ .root)
    (h : ofPath path type default source = .error (.path .rootHasNoParent)) : source = some .root := by
  unfold ofPath at h
  split at h
  · exact absurd rfl hpath
  · cases h
  · split at h
    · rfl
    · cases h
    · cases h

/-- An entry that names a path into a field misses a parent only where its source is `$`. -/
theorem source_of_ofColumn_rootHasNoParent (hnested : e.isNested)
    (h : ofColumn role e = .error (.path .rootHasNoParent)) : e.source = some "$" := by
  unfold ofColumn at h
  rcases bind_eq_error.1 h with hname | ⟨path, hname, h⟩
  · exact absurd hname (parsePath_ne_rootHasNoParent e.name)
  · have hpath : path ≠ .root := Path.ne_root_of_isNestedName hnested (parsePath_eq_ok.1 hname)
    split at h
    · next text htext =>
      rcases bind_eq_error.1 h with hsource | ⟨source, hsource, h⟩
      · exact absurd hsource (parsePath_ne_rootHasNoParent text)
      · cases source_of_ofPath_rootHasNoParent hpath h
        rw [htext, Path.parse_eq_ok_root_iff.1 (parsePath_eq_ok.1 hsource)]
    · -- without a source there is nothing else that a parent could be asked of
      split at h
      · rcases bind_eq_error.1 h with hdefault | ⟨default, _, h⟩
        · exact absurd hdefault (resolveDefault_ne_path _ _ _ _)
        · cases source_of_ofPath_rootHasNoParent hpath h
      · split at h
        · cases h
        · cases h
        · cases h
        · cases source_of_ofPath_rootHasNoParent hpath h

end Directive

namespace Schema

/-! ## The first failure -/

theorem nested_append (cs ds : List Column) : nested (cs ++ ds) = nested cs ++ nested ds := List.filter_append _ _

theorem failure?_namedPaths (cs : List Column) :
    failure? (namedPaths cs) = ((nested cs).map Check.name).findSome? Check.error? := by
  rw [namedPaths, failure?_mapM, List.findSome?_map]
  rfl

theorem failure?_directives (role : Directive.Role) (cs : List Column) :
    failure? (directives role cs) = ((nested cs).map (Check.directive role)).findSome? Check.error? := by
  rw [directives, failure?_mapM, List.findSome?_map]
  rfl

theorem failure?_keptDirectives (c : Config) :
    failure? (keptDirectives c) = (if c.dropColumns = [] then (nested c.columns).map (Check.directive .keep)
      else []).findSome? Check.error? := by
  split
  · next hdrop => rw [keptDirectives_of_no_drops hdrop, failure?_directives]
  · next hdrop =>
    rw [keptDirectives_of_drops hdrop]
    rfl

/-- Compiling fails with the error of the first check that fails. -/
theorem failure?_compile (c : Config) : failure? (compile c) = c.checks.findSome? Check.error? := by
  rw [compile_eq, failure?_bind fun _ => failure?_bind fun _ => failure?_bind fun _ => failure?_bind fun _ =>
    failure?_bind fun _ => failure?_pure _]
  rw [failure?_namedPaths, failure?_namedPaths, failure?_namedPaths, failure?_keptDirectives, failure?_directives]
  simp only [Config.checks, nested_append, List.map_append, List.findSome?_append, Option.or_assoc, Option.or_none]

/-- There is a schema if and only if no check fails. -/
theorem exists_compile_eq_ok_iff (c : Config) :
    (∃ S, compile c = .ok S) ↔ ∀ k ∈ c.checks, k.error? = none := by
  rw [← failure?_eq_none, failure?_compile, List.findSome?_eq_none_iff]

/-- Of the columns to keep only the names are looked at where columns are dropped. -/
theorem compile_eq_of_names {columns columns' addColumns dropColumns : List Column} (hdrop : dropColumns ≠ [])
    (hnames : columns'.map Column.name = columns.map Column.name) :
    compile ⟨columns', addColumns, dropColumns⟩ = compile ⟨columns, addColumns, dropColumns⟩ := by
  rw [compile_eq, compile_eq, keptDirectives_of_drops hdrop, keptDirectives_of_drops hdrop,
    namedPaths_eq_of_names hnames]

/-- A parent is missed only where an entry that is kept or added has the source `$`. -/
theorem exists_source_of_compile_rootHasNoParent {c : Config}
    (h : compile c = .error (.path .rootHasNoParent)) :
    ∃ e ∈ c.columns ++ c.addColumns, e.isNested ∧ e.source = some "$" := by
  have hfirst : c.checks.findSome? Check.error? = some (.path .rootHasNoParent) := by
    rw [← failure?_compile, failure?_eq_some]
    exact h
  obtain ⟨k, hk, hfail⟩ := List.exists_of_findSome?_eq_some hfirst
  have hdirective : ∀ role cs, k ∈ (nested cs).map (Check.directive role) →
      ∃ e ∈ cs, e.isNested ∧ e.source = some "$" := by
    intro role cs hk
    obtain ⟨e, he, rfl⟩ := List.mem_map.1 hk
    obtain ⟨hmem, hnested⟩ := List.mem_filter.1 he
    exact ⟨e, hmem, hnested, Directive.source_of_ofColumn_rootHasNoParent hnested (failure?_eq_some.1 hfail)⟩
  rcases List.mem_append.1 hk with hk | hadd
  · rcases List.mem_append.1 hk with hname | hkeep
    · obtain ⟨e, _, rfl⟩ := List.mem_map.1 hname
      exact absurd (failure?_eq_some.1 hfail) (Directive.parsePath_ne_rootHasNoParent e.name)
    · split at hkeep
      · obtain ⟨e, he, hsource⟩ := hdirective .keep c.columns hkeep
        exact ⟨e, List.mem_append_left _ he, hsource⟩
      · cases hkeep
  · obtain ⟨e, he, hsource⟩ := hdirective .add c.addColumns hadd
    exact ⟨e, List.mem_append_right _ he, hsource⟩

/-! ## Building in turn -/

/-- Puts a directive into the table of the parent of its path, which may be missing. -/
def putDirective (table : List (Path × Directives)) (d : Directive) :
    Except ColumnError (List (Path × Directives)) := do
  let parent ← d.path.parent.mapError .path
  return Dictionary.insert parent
    (Dictionary.insert d.path d ((Dictionary.find? parent table).getD [])) table

/-- Puts a path into the set of its parent, which may be missing. -/
def putDropped (table : List (Path × List Path)) (p : Path) : Except ColumnError (List (Path × List Path)) := do
  let parent ← p.parent.mapError .path
  return Dictionary.insert parent (((Dictionary.find? parent table).getD []).insert p) table

/-- The table of what entries keep or add, entry by entry. -/
def tableInTurn (role : Directive.Role) (cs : List Column) : Except ColumnError (List (Path × Directives)) :=
  (nested cs).foldlM (fun table e => do putDirective table (← Directive.ofColumn role e)) []

/-- Compiles entry by entry: each name is read and each directive is made where it is put in. -/
def compileInTurn (c : Config) : Except ColumnError Schema := do
  let visited ← (nested (c.columns ++ c.addColumns ++ c.dropColumns)).foldlM
    (fun seen e => do pure (seen ++ (← Directive.parsePath e.name).prefixes)) []
  let drop ← (nested c.dropColumns).foldlM
    (fun table e => do putDropped table (← Directive.parsePath e.name)) []
  let keep ← tableInTurn .keep (if c.dropColumns.isEmpty then c.columns else [])
  let add ← tableInTurn .add c.addColumns
  return ⟨visited.eraseDups, keep, add, drop⟩

theorem putDirective_eq (table : List (Path × Directives)) (d : Directive) :
    putDirective table d = .ok (insertDirective table d) := rfl

theorem putDropped_eq (table : List (Path × List Path)) {p : Path} (hp : p ≠ .root) :
    putDropped table p = .ok (insertDropped table p) := by
  cases p with
  | root => exact absurd rfl hp
  | child parent s => rfl

theorem tableInTurn_eq (role : Directive.Role) (cs : List Column) :
    tableInTurn role cs = (directives role cs).map directiveTable :=
  foldlM_eq_map_mapM (fun _ _ d _ table => putDirective_eq table d) []

/-- No name of a path is the root, so each dropped one has a parent. -/
theorem foldlM_putDropped (cs : List Column) :
    (nested cs).foldlM (fun table e => do putDropped table (← Directive.parsePath e.name)) [] =
      (namedPaths cs).map dropTable := by
  apply foldlM_eq_map_mapM
  intro e he p hp table
  have hnested : e.isNested := (List.mem_filter.1 he).2
  exact putDropped_eq table (Path.ne_root_of_isNestedName hnested (Directive.parsePath_eq_ok.1 hp))

theorem foldlM_prefixes (cs : List Column) :
    (nested cs).foldlM (fun seen e => do pure (seen ++ (← Directive.parsePath e.name).prefixes)) [] =
      (namedPaths cs).map fun ps => ps.flatMap Path.prefixes := by
  simp only [List.flatMap_eq_foldl]
  apply foldlM_eq_map_mapM
  exact fun _ _ _ _ _ => rfl

/-- Compiling entry by entry, where a parent may be missing, comes to the same. -/
theorem compileInTurn_eq_compile (c : Config) : compileInTurn c = compile c := by
  have hkeep : tableInTurn .keep (if c.dropColumns.isEmpty then c.columns else []) =
      (keptDirectives c).map directiveTable := by
    rw [tableInTurn_eq]
    unfold keptDirectives
    split
    · rfl
    · rfl
  have hnames : namedPaths (c.columns ++ c.addColumns ++ c.dropColumns) = do
      let kept ← namedPaths c.columns
      let added ← namedPaths c.addColumns
      let dropped ← namedPaths c.dropColumns
      return kept ++ added ++ dropped := by
    simp only [namedPaths, nested_append, List.mapM_append, bind_assoc, pure_bind]
  rw [compileInTurn, foldlM_prefixes, foldlM_putDropped, hkeep, tableInTurn_eq, hnames, compile_eq]
  -- what has been read of the dropped names once is read again
  cases namedPaths c.columns with
  | error e => rfl
  | ok kept =>
    cases namedPaths c.addColumns with
    | error e => rfl
    | ok added =>
      cases namedPaths c.dropColumns with
      | error e => rfl
      | ok dropped =>
        cases keptDirectives c with
        | error e => rfl
        | ok keep =>
          cases directives .add c.addColumns with
          | error e => rfl
          | ok add => rfl

/-- Compiling makes the checks in order: the first that fails gives the error, and there is a schema if none fails. Asking
for parents while the tables are built adds no failure. A parent is missed only by the source `$`, and where columns are
dropped nothing but the names of the columns to keep has an effect. -/
theorem compile_follows_checks (c : Config) :
    (∀ error, compile c = .error error ↔ c.checks.findSome? Check.error? = some error) ∧
      ((∃ S, compile c = .ok S) ↔ ∀ k ∈ c.checks, k.error? = none) ∧
      compileInTurn c = compile c ∧
      (compile c = .error (.path .rootHasNoParent) →
        ∃ e ∈ c.columns ++ c.addColumns, e.isNested ∧ e.source = some "$") ∧
      (c.dropColumns ≠ [] → ∀ columns, columns.map Column.name = c.columns.map Column.name →
        compile ⟨columns, c.addColumns, c.dropColumns⟩ = compile c) := by
  refine ⟨?first, exists_compile_eq_ok_iff c, compileInTurn_eq_compile c,
    exists_source_of_compile_rootHasNoParent, fun hdrop _ hnames => compile_eq_of_names hdrop hnames⟩
  case first =>
    intro error
    rw [← failure?_eq_some, failure?_compile]

/-- The source `$` fails before the next entry, which adds nothing; a column to keep that could have no directive is let
through where columns are dropped. -/
theorem compile_follows_checks_root_source :
    let entry (name : String) : Column := ⟨name, none, none, none⟩
    let rooted : Column := ⟨"$.a.k", none, none, some "$"⟩
    let c : Config := ⟨[entry "id", entry "$.a"], [rooted, entry "$.b"], []⟩
    let unfit : Column := ⟨"$.a[*]", some .timestamp, some .null, some "a"⟩
    let c' : Config := ⟨[unfit], [], [entry "id"]⟩
    compile c = .error (.path .rootHasNoParent) ∧
      c.checks.findSome? Check.error? = some (.path .rootHasNoParent) ∧
      (∃ e ∈ c.columns ++ c.addColumns, e.isNested ∧ e.source = some "$") ∧
      c'.dropColumns ≠ [] ∧ Check.error? (.directive .keep unfit) ≠ none ∧ (∀ k ∈ c'.checks, k.error? = none) ∧
      (∃ S, compile c' = .ok S) ∧ compile ⟨[entry "$.a[*]"], [], [entry "id"]⟩ = compile c' := by
  intro entry rooted c unfit c'
  have h : compile c = .error (.path .rootHasNoParent) := by cbv
  have hdrop : c'.dropColumns ≠ [] := by simp [c']
  have hS : compile c' = .ok ⟨[Path.field "a", (Path.field "a").wildcard], [], [], []⟩ := by cbv
  have hunfit : Check.error? (.directive .keep unfit) = some (.path (.malformed "a" .missingRoot)) := by cbv
  obtain ⟨hfirst, _, _, hroot, _⟩ := compile_follows_checks c
  obtain ⟨_, hall, _, _, hnames⟩ := compile_follows_checks c'
  have hok : ∃ S, compile c' = .ok S := ⟨_, hS⟩
  refine ⟨h, (hfirst _).1 h, hroot h, hdrop, ?_, hall.1 hok, hok, hnames hdrop _ rfl⟩
  rw [hunfit]
  simp

end Schema

end RecordFilter
