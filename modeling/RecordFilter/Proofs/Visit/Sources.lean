import RecordFilter.Proofs.Schema.Tables
import RecordFilter.Proofs.Visit.Answers
import Mathlib.Data.List.Forall2

namespace RecordFilter

/-! # Only the last segment of a source matters

A directive looks for its source next to the location that it writes, wherever the source lies. So a schema does the
same as what is left of it when the parents of all sources are forgotten (`forgetSourceParents`): in each table that is
looked up stand the same directives, and each of them finds and writes the same. Compiling does not look at the parents
either. Configurations that differ in them alone have directives that do (`exists_directives_eq_ok`), and the rest of the
schema comes from the names.
-/

open Json (Value)

/-! ## Directives -/

/-- The last segment, right below the root. -/
def Path.lastAlone : Path → Path
  | root => root
  | child _ s => root.child s

namespace Directive

/-- The directive with the last segment of its source only. -/
def forgetSourceParent (d : Directive) : Directive := { d with source := d.source.map Path.lastAlone }

variable (d : Directive)

@[simp] theorem base_forgetSourceParent : d.forgetSourceParent.base = d.base := rfl

@[simp] theorem sourceBase_forgetSourceParent : d.forgetSourceParent.sourceBase = d.sourceBase := by
  obtain ⟨_, _, _, _, source⟩ := d
  rcases source with _ | _ | ⟨p, s⟩
  · rfl
  · rfl
  · rfl

@[simp] theorem findItem?_forgetSourceParent (items : List Value) :
    d.forgetSourceParent.findItem? items = d.findItem? items := by
  rw [findItem?, findItem?, sourceBase_forgetSourceParent]

@[simp] theorem findMember?_forgetSourceParent (members : List (String × Value)) :
    d.forgetSourceParent.findMember? members = d.findMember? members := by
  rw [findMember?, findMember?, sourceBase_forgetSourceParent]

@[simp] theorem write_forgetSourceParent (descend : Path → Value → Value) (found : Option Value) :
    d.forgetSourceParent.write descend found = d.write descend found := rfl

end Directive

namespace Schema

/-- Directives by their paths, each with the last segment of its source only. -/
def forgetInDirectives (t : Directives) : Directives := t.map (Prod.map id Directive.forgetSourceParent)

/-- A table in which each source has its last segment only. -/
def forgetInTable (table : List (Path × Directives)) : List (Path × Directives) :=
  table.map (Prod.map id forgetInDirectives)

theorem forgetInTable_insertDirective (table : List (Path × Directives)) (d : Directive) :
    forgetInTable (insertDirective table d) = insertDirective (forgetInTable table) d.forgetSourceParent := by
  have hfind : Dictionary.find? d.parent (forgetInTable table) =
      (Dictionary.find? d.parent table).map forgetInDirectives :=
    Dictionary.find?_map_keys Function.injective_id _ _ _
  have hparent : ((Dictionary.find? d.parent table).map forgetInDirectives).getD [] =
      forgetInDirectives ((Dictionary.find? d.parent table).getD []) := by
    cases Dictionary.find? d.parent table with
    | none => rfl
    | some t => rfl
  show _ = Dictionary.insert d.parent (Dictionary.insert d.path d.forgetSourceParent
    ((Dictionary.find? d.parent (forgetInTable table)).getD [])) (forgetInTable table)
  rw [hfind, hparent, insertDirective, forgetInTable, Dictionary.map_insert Function.injective_id, id,
    forgetInDirectives, Dictionary.map_insert Function.injective_id, id]
  rfl

/-- The table of directives without the parents of their sources. -/
theorem forgetInTable_directiveTable (ds : List Directive) :
    forgetInTable (directiveTable ds) = directiveTable (ds.map Directive.forgetSourceParent) := by
  have hfold : ∀ table, forgetInTable (ds.foldl insertDirective table) =
      (ds.map Directive.forgetSourceParent).foldl insertDirective (forgetInTable table) := by
    induction ds with
    | nil => exact fun table => rfl
    | cons d ds ih =>
      intro table
      rw [List.foldl_cons, ih, forgetInTable_insertDirective]
      rfl
  exact hfold []

/-! ## Visits -/

/-- The schema in which each source has its last segment only. -/
def forgetSourceParents (S : Schema) : Schema := { S with keep := forgetInTable S.keep, add := forgetInTable S.add }

section Levels

variable (S : Schema) (f g : Path → Value → Value) (p : Path)

theorem map_snd_forgetInDirectives (t : Directives) :
    (forgetInDirectives t).map Prod.snd = (t.map Prod.snd).map Directive.forgetSourceParent := by
  rw [forgetInDirectives, List.map_map, List.map_map]
  rfl

theorem keepAt_forgetSourceParents :
    S.forgetSourceParents.keepAt p = (S.keepAt p).map (List.map Directive.forgetSourceParent) := by
  have hfind : Dictionary.find? p S.forgetSourceParents.keep = (Dictionary.find? p S.keep).map forgetInDirectives :=
    Dictionary.find?_map_keys Function.injective_id _ _ _
  rw [keepAt, keepAt, hfind, Option.map_map, Option.map_map]
  congr 1
  funext t
  exact map_snd_forgetInDirectives t

theorem addAt_forgetSourceParents :
    S.forgetSourceParents.addAt p = (S.addAt p).map Directive.forgetSourceParent := by
  have hfind : Dictionary.find? p S.forgetSourceParents.add = (Dictionary.find? p S.add).map forgetInDirectives :=
    Dictionary.find?_map_keys Function.injective_id _ _ _
  rw [addAt, addAt, hfind]
  cases Dictionary.find? p S.add with
  | none => rfl
  | some t => exact map_snd_forgetInDirectives t

theorem writeItems_forgetSourceParent (ds : List Directive) (items : List Value) :
    writeItems f (ds.map Directive.forgetSourceParent) items = writeItems f ds items := by
  simp [writeItems]

theorem writeMembers_forgetSourceParent (ds : List Directive) (members : List (String × Value)) :
    writeMembers f (ds.map Directive.forgetSourceParent) members = writeMembers f ds members := by
  simp [writeMembers]

theorem takeOr_forgetSourceParent (d : Directive) (found : Option Value) :
    takeOr f g d.forgetSourceParent found = takeOr f g d found := rfl

theorem takeItems_forgetSourceParent (ds : List Directive) (held : List (Option Value)) :
    takeItems f g (ds.map Directive.forgetSourceParent) held = takeItems f g ds held := by
  induction ds generalizing held with
  | nil => rfl
  | cons d ds ih =>
    rw [List.map_cons, takeItems, takeItems, Directive.sourceBase_forgetSourceParent]
    cases d.sourceBase.index? with
    | none => simp only [ih, takeOr_forgetSourceParent]
    | some i => simp [ih, takeOr_forgetSourceParent, Function.comp_def]

theorem takeMembers_forgetSourceParent (ds : List Directive) (held : List (String × Value)) :
    takeMembers f g (ds.map Directive.forgetSourceParent) held = takeMembers f g ds held := by
  induction ds generalizing held with
  | nil => rfl
  | cons d ds ih =>
    rw [List.map_cons, takeMembers, takeMembers]
    simp [ih, takeOr_forgetSourceParent, Function.comp_def]

theorem visitLevel_forgetSourceParents : S.forgetSourceParents.visitLevel f p = S.visitLevel f p := by
  have hpass : S.forgetSourceParents.passItems f p = S.passItems f p := rfl
  have hdrop : S.forgetSourceParents.dropAt p = S.dropAt p := rfl
  funext v
  cases v with
  | array items =>
    rw [visitLevel_array, visitLevel_array, visitItems, visitItems, keepAt_forgetSourceParents, addAt_forgetSourceParents,
      writeItems_forgetSourceParent, hpass, hdrop]
    cases S.dropAt p with
    | some dropped => rfl
    | none =>
      cases S.keepAt p with
      | some kept => simp only [Option.map_some, writeItems_forgetSourceParent]
      | none => rfl
  | object members =>
    rw [visitLevel_object, visitLevel_object, visitMembers_eq, visitMembers_eq, keepAt_forgetSourceParents,
      addAt_forgetSourceParents, writeMembers_forgetSourceParent, hdrop]
    cases S.dropAt p with
    | some dropped => rfl
    | none =>
      cases S.keepAt p with
      | some kept => simp only [Option.map_some, writeMembers_forgetSourceParent]
      | none => rfl
  | _ => rfl

theorem rewriteLevel_forgetSourceParents :
    S.forgetSourceParents.rewriteLevel f g p = S.rewriteLevel f g p := by
  have hpass : S.forgetSourceParents.passItems f p = S.passItems f p := rfl
  have hdrop : S.forgetSourceParents.dropAt p = S.dropAt p := rfl
  funext v
  cases v with
  | array items =>
    rw [rewriteLevel_array, rewriteLevel_array, rewriteItems, rewriteItems, keepAt_forgetSourceParents,
      addAt_forgetSourceParents, writeItems_forgetSourceParent, hpass, hdrop]
    cases S.dropAt p with
    | some dropped => rfl
    | none =>
      cases S.keepAt p with
      | some kept => simp only [Option.map_some, takeItems_forgetSourceParent]
      | none => rfl
  | object members =>
    rw [rewriteLevel_object, rewriteLevel_object, rewriteMembers_eq, rewriteMembers_eq, keepAt_forgetSourceParents,
      addAt_forgetSourceParents, writeMembers_forgetSourceParent, hdrop]
    cases S.dropAt p with
    | some dropped => rfl
    | none =>
      cases S.keepAt p with
      | some kept => simp only [Option.map_some, takeMembers_forgetSourceParent]
      | none => rfl
  | _ => rfl

theorem visitTo_forgetSourceParents (n : Nat) : S.forgetSourceParents.visitTo n = S.visitTo n := by
  induction n with
  | zero => rfl
  | succ n ih =>
    funext p v
    rw [visitTo, visitTo, ih, visitLevel_forgetSourceParents]
    rfl

theorem rewriteTo_forgetSourceParents (n : Nat) : S.forgetSourceParents.rewriteTo n = S.rewriteTo n := by
  induction n with
  | zero => rfl
  | succ n ih =>
    funext p v
    rw [rewriteTo, rewriteTo, ih, visitTo_forgetSourceParents, rewriteLevel_forgetSourceParents]
    rfl

end Levels

/-- A visit does not need the parents of sources. -/
theorem visit_forgetSourceParents (S : Schema) : S.forgetSourceParents.visit = S.visit := by
  funext p v
  rw [visit, visitTo_forgetSourceParents]
  rfl

/-- Nor does a rewrite. -/
theorem rewrite_forgetSourceParents (S : Schema) : S.forgetSourceParents.rewrite = S.rewrite := by
  funext p v
  rw [rewrite, rewriteTo_forgetSourceParents]
  rfl

end Schema

/-! ## Configurations -/

/-- Two entries with the same name, type and default. The source of one may be another path than that of the other, with
the same last segment. -/
structure Column.SameButForSourceParent (e e' : Column) : Prop where
  name : e'.name = e.name
  type : e'.type = e.type
  default : e'.default = e.default
  source : e'.source = e.source ∨ ∃ text text' q q' s, e.source = some text ∧ e'.source = some text' ∧
    Path.parse text = .ok (.child q s) ∧ Path.parse text' = .ok (.child q' s)

/-- Two configurations whose entries are the same, one by one, but for the parents of sources. -/
structure Config.SameButForSourceParents (c c' : Config) : Prop where
  columns : List.Forall₂ Column.SameButForSourceParent c.columns c'.columns
  addColumns : List.Forall₂ Column.SameButForSourceParent c.addColumns c'.addColumns
  dropColumns : c'.dropColumns = c.dropColumns

namespace Directive

/-- Where a directive copies from one path, it may copy from any path with the same last segment. -/
theorem copy_of_sameLast {path q : Path} {s : Segment} {d : Directive} (h : copy path (q.child s) = .ok d) (q' : Path) :
    ∃ d', copy path (q'.child s) = .ok d' ∧ d'.forgetSourceParent = d.forgetSourceParent := by
  unfold copy ofPath at h ⊢
  split at h
  · cases h
  · cases h
  · -- the source of `d` does not end in a wildcard, and neither does the other one
    cases s with
    | wildcard => cases h
    | name n =>
      cases h
      exact ⟨_, rfl, rfl⟩
    | index i =>
      cases h
      exact ⟨_, rfl, rfl⟩

theorem ofColumn_of_same {role : Role} {e e' : Column} {d : Directive} (hsame : e.SameButForSourceParent e')
    (h : ofColumn role e = .ok d) :
    ∃ d', ofColumn role e' = .ok d' ∧ d'.forgetSourceParent = d.forgetSourceParent := by
  obtain ⟨name, type, default, source⟩ := e
  obtain ⟨name', type', default', source'⟩ := e'
  obtain ⟨rfl, rfl, rfl, hsource⟩ := hsame
  rcases hsource with rfl | ⟨text, text', q, q', s, rfl, rfl, hparse, hparse'⟩
  · exact ⟨d, h, rfl⟩
  · -- an entry with a source copies, whatever else it says
    obtain ⟨path, hpath, hcopy⟩ := bind_eq_ok.1 h
    obtain ⟨source, hsource, hcopy⟩ := bind_eq_ok.1 hcopy
    cases (parsePath_eq_ok.2 hparse).symm.trans hsource
    obtain ⟨d', hd', hforget⟩ := copy_of_sameLast hcopy q'
    exact ⟨d', bind_eq_ok.2 ⟨path, hpath, bind_eq_ok.2 ⟨_, parsePath_eq_ok.2 hparse', hd'⟩⟩, hforget⟩

end Directive

namespace Schema

variable {c c' : Config} {S : Schema} {role : Directive.Role} {cs cs' : List Column}

theorem map_name_of_same (h : List.Forall₂ Column.SameButForSourceParent cs cs') :
    cs'.map Column.name = cs.map Column.name := by
  induction h with
  | nil => rfl
  | cons hsame _ ih => rw [List.map_cons, List.map_cons, hsame.name, ih]

theorem forall₂_nested (h : List.Forall₂ Column.SameButForSourceParent cs cs') :
    List.Forall₂ Column.SameButForSourceParent (nested cs) (nested cs') := by
  have hnested : ∀ e e' : Column, e.SameButForSourceParent e' → (e.isNested ↔ e'.isNested) := by
    intro e e' hsame
    rw [Column.isNested, Column.isNested, hsame.name]
  exact List.rel_filter (fun e e' hsame => hnested e e' hsame) h

/-- Entries that differ in the parents of sources alone have directives that do. -/
theorem exists_directives_eq_ok (h : List.Forall₂ Column.SameButForSourceParent cs cs') {ds : List Directive}
    (hds : directives role cs = .ok ds) :
    ∃ ds', directives role cs' = .ok ds' ∧ forgetInTable (directiveTable ds') = forgetInTable (directiveTable ds) := by
  have hread : (nested cs).mapM (Directive.ofColumn role) = .ok ds := hds
  have hstep : ∀ e e' d, Column.SameButForSourceParent e e' → Directive.ofColumn role e = .ok d →
      ∃ d', Directive.ofColumn role e' = .ok d' ∧ d'.forgetSourceParent = d.forgetSourceParent :=
    fun _ _ _ hsame hd => Directive.ofColumn_of_same hsame hd
  obtain ⟨ds', hds', hforget⟩ := exists_mapM_eq_ok hstep (forall₂_nested h) hread
  exact ⟨ds', hds', by rw [forgetInTable_directiveTable, forgetInTable_directiveTable, hforget]⟩

theorem exists_keptDirectives_eq_ok (h : c.SameButForSourceParents c') {ds : List Directive}
    (hds : keptDirectives c = .ok ds) :
    ∃ ds', keptDirectives c' = .ok ds' ∧ forgetInTable (directiveTable ds') = forgetInTable (directiveTable ds) := by
  by_cases hdrop : c.dropColumns = []
  · rw [keptDirectives_of_no_drops hdrop] at hds
    rw [keptDirectives_of_no_drops (h.dropColumns.trans hdrop)]
    exact exists_directives_eq_ok h.columns hds
  · rw [keptDirectives_of_drops hdrop] at hds
    have hdrop' : c'.dropColumns ≠ [] := by rwa [h.dropColumns]
    rw [keptDirectives_of_drops hdrop']
    exact ⟨ds, hds, rfl⟩

/-- Configurations that are the same but for the parents of sources compile alike, to schemas that are the same but for
them: these enter the same paths and drop the same, and they make the same of every value and of every record. -/
theorem compile_rewriteRecord_eq_of_source_parents (h : compile c = .ok S) (hsame : c.SameButForSourceParents c') :
    ∃ S', compile c' = .ok S' ∧ S'.visited = S.visited ∧ S'.drop = S.drop ∧
      forgetInTable S'.keep = forgetInTable S.keep ∧ forgetInTable S'.add = forgetInTable S.add ∧
      S'.visit = S.visit ∧ S'.rewrite = S.rewrite ∧ ∀ r, S'.rewriteRecord r = S.rewriteRecord r := by
  rw [compile_eq] at h
  obtain ⟨kept, hkept, h⟩ := bind_eq_ok.1 h
  obtain ⟨added, hadded, h⟩ := bind_eq_ok.1 h
  obtain ⟨dropped, hdropped, h⟩ := bind_eq_ok.1 h
  obtain ⟨keep, hkeep, h⟩ := bind_eq_ok.1 h
  obtain ⟨add, hadd, h⟩ := bind_eq_ok.1 h
  cases h
  obtain ⟨keep', hkeep', hkeepTable⟩ := exists_keptDirectives_eq_ok hsame hkeep
  obtain ⟨add', hadd', haddTable⟩ := exists_directives_eq_ok hsame.addColumns hadd
  have hkept' : namedPaths c'.columns = .ok kept := by
    rw [namedPaths_eq_of_names (map_name_of_same hsame.columns), hkept]
  have hadded' : namedPaths c'.addColumns = .ok added := by
    rw [namedPaths_eq_of_names (map_name_of_same hsame.addColumns), hadded]
  have hdropped' : namedPaths c'.dropColumns = .ok dropped := by rw [hsame.dropColumns, hdropped]
  let visited := visitedPaths (kept ++ added ++ dropped)
  let S : Schema := ⟨visited, directiveTable keep, directiveTable add, dropTable dropped⟩
  let S' : Schema := ⟨visited, directiveTable keep', directiveTable add', dropTable dropped⟩
  -- the visited paths and the dropped ones are the same, and so is what is left of the two tables
  have hforget : S'.forgetSourceParents = S.forgetSourceParents := by
    rw [forgetSourceParents, forgetSourceParents, hkeepTable, haddTable]
  have hvisit : S'.visit = S.visit := by rw [← visit_forgetSourceParents, hforget, visit_forgetSourceParents]
  have hrewrite : S'.rewrite = S.rewrite := by
    rw [← rewrite_forgetSourceParents, hforget, rewrite_forgetSourceParents]
  refine ⟨S', ?_, rfl, rfl, hkeepTable, haddTable, hvisit, hrewrite, ?_⟩
  · rw [compile_eq, hkept', hadded', hdropped', hkeep', hadd']
    rfl
  · intro r
    rw [rewriteRecord, rewriteRecord, hrewrite]

/-- Sources in another field, right below the root and under a wildcard: what is read is the sibling of that name. -/
theorem compile_rewriteRecord_eq_of_source_parents_elsewhere :
    let copied (name source : String) : Column := ⟨name, none, none, some source⟩
    let c : Config := ⟨[copied "$.a.k" "$.a.s", copied "$.a[0]" "$.a[1]"], [copied "$.b.n" "$.b.t"], []⟩
    let c' : Config := ⟨[copied "$.a.k" "$.z.y.s", copied "$.a[0]" "$[1]"], [copied "$.b.n" "$.b[*].t"], []⟩
    let a := Path.field "a"
    let b := Path.field "b"
    let taken (p : Path) (s source : Segment) : Path × Directive :=
      (p.child s, ⟨p, s, none, none, some (p.child source)⟩)
    let S : Schema := ⟨[a, a.key "k", a.index 0, b, b.key "n"],
      [(a, [taken a (.name "k") (.name "s"), taken a (.index 0) (.index 1)])],
      [(b, [taken b (.name "n") (.name "t")])], []⟩
    let r : List (String × Value) := [("a", .object [("s", .string "s")]), ("b", .object [("t", .string "t")]),
      ("z", .object [("y", .object [("s", .null)])])]
    compile c = .ok S ∧ c.SameButForSourceParents c' ∧
      ∃ S', compile c' = .ok S' ∧ S'.visited = S.visited ∧
        (S'.keepAt a).map (List.map Directive.source) =
          some [some (((Path.field "z").key "y").key "s"), some (.index .root 1)] ∧
        S'.visit a (.array [.null, .string "x"]) = .array [.null, .string "x"] ∧
        S'.rewriteRecord r = [("a", .object [("k", .string "s"), ("0", .null)]),
          ("b", .object [("t", .string "t"), ("n", .string "t")]), ("z", .object [("y", .object [("s", .null)])])] := by
  intro copied c c' a b taken S r
  have h : compile c = .ok S := by cbv
  have hsame : ∀ name {text text' q q' s},
      Path.parse text = .ok (.child q s) → Path.parse text' = .ok (.child q' s) →
        (copied name text).SameButForSourceParent (copied name text') :=
    fun _ _ _ _ _ _ hparse hparse' => ⟨rfl, rfl, rfl, Or.inr ⟨_, _, _, _, _, rfl, rfl, hparse, hparse'⟩⟩
  have hs : Path.parse "$.a.s" = .ok (a.key "s") := by cbv
  have hs' : Path.parse "$.z.y.s" = .ok (((Path.field "z").key "y").key "s") := by cbv
  have hindex : Path.parse "$.a[1]" = .ok (a.index 1) := by cbv
  have hindex' : Path.parse "$[1]" = .ok (Path.root.index 1) := by cbv
  have ht : Path.parse "$.b.t" = .ok (b.key "t") := by cbv
  have ht' : Path.parse "$.b[*].t" = .ok (b.wildcard.key "t") := by cbv
  have hc : c.SameButForSourceParents c' :=
    ⟨.cons (hsame _ hs hs') (.cons (hsame _ hindex hindex') .nil), .cons (hsame _ ht ht') .nil, rfl⟩
  obtain ⟨S', h', hvisited, _, _, _, hvisit, _, hrecord⟩ := compile_rewriteRecord_eq_of_source_parents h hc
  refine ⟨h, hc, S', h', hvisited, ?_, ?_, ?_⟩
  · -- the sources that are stored are those of the second configuration
    have hread : (compile c').map (fun S => (S.keepAt a).map (List.map Directive.source)) =
        .ok (some [some (((Path.field "z").key "y").key "s"), some (.index .root 1)]) := by cbv
    rw [h'] at hread
    exact Except.ok.inj hread
  · rw [hvisit]
    cbv
  · rw [hrecord]
    cbv

end Schema

end RecordFilter
