import RecordFilter.Proofs.Visit.Results
import RecordFilter.Proofs.Visit.Unindexed

namespace RecordFilter

/-! # Dropping in turn

Columns can be dropped at once or by one configuration after the other, in either order, as long as their names have
no positions: a position speaks of the array as it was, and an array changes when items are dropped from it. What
carries this is that each schema drops by the paths of what is there, which what is dropped elsewhere does not change.
-/

open Json (Value)

/-- A configuration that drops columns and does nothing else. -/
def Config.dropping (cs : List Column) : Config := ⟨[], [], cs⟩

namespace Schema

variable {cs cs₁ cs₂ : List Column} {S S₁ S₂ : Schema} {p : Path}

/-! ## Schemas that only drop -/

theorem compile_dropping (cs : List Column) :
    compile (.dropping cs) = (namedPaths cs).map fun ps => ⟨visitedPaths ps, [], [], dropTable ps⟩ := by
  have hkeep : keptDirectives (.dropping cs) = .ok [] := by
    unfold keptDirectives
    split
    · rfl
    · rfl
  rw [compile_eq, hkeep]
  show (namedPaths cs).bind _ = (namedPaths cs).map _
  cases namedPaths cs with
  | error e => rfl
  | ok ps => rfl

/-- Lists that compile each by itself compile together. -/
theorem compile_dropping_append (h₁ : compile (.dropping cs₁) = .ok S₁) (h₂ : compile (.dropping cs₂) = .ok S₂) :
    ∃ S, compile (.dropping (cs₁ ++ cs₂)) = .ok S := by
  have hpaths : ∀ {cs : List Column} {S : Schema}, compile (.dropping cs) = .ok S →
      ∃ ps, namedPaths cs = .ok ps := by
    intro cs S h
    rw [compile_dropping] at h
    cases hcs : namedPaths cs with
    | error e =>
      rw [hcs] at h
      cases h
    | ok ps => exact ⟨ps, rfl⟩
  rcases hpaths h₁ with ⟨ps₁, hps₁⟩
  rcases hpaths h₂ with ⟨ps₂, hps₂⟩
  -- names are read one by one, so the lists are read together as they are each by itself
  have hboth : namedPaths (cs₁ ++ cs₂) = .ok (ps₁ ++ ps₂) := by
    rw [namedPaths, mapM_eq_ok] at hps₁ hps₂ ⊢
    rw [nested, List.filter_append, List.map_append, List.map_append]
    exact congrArg₂ (· ++ ·) hps₁ hps₂
  rw [compile_dropping, hboth]
  exact ⟨_, rfl⟩

theorem keepAt_of_dropping (h : compile (.dropping cs) = .ok S) (p : Path) : S.keepAt p = none := by
  rcases eq_of_compile h with ⟨keep, add, hkeep, _, rfl⟩
  have hnil : keep = [] := by
    unfold keptDirectives at hkeep
    split at hkeep
    · exact directives_of_nested_eq_nil hkeep rfl
    · cases hkeep
      rfl
  rw [hnil]
  rfl

theorem visit_array_of_dropping (h : compile (.dropping cs) = .ok S) (hcs : (Config.dropping cs).Unindexed)
    (hroot : p ≠ .root) (items : List Value) :
    S.visit p (.array items) =
      .array (if (names cs).contains p.wildcard then [] else items.map (S.visit p.wildcard)) := by
  have hpass := passItems_of_unindexed (f := S.visit) (p := p) h hcs items
  rw [(coherent_of_compile h).visit_eq_visitLevel hroot, visitLevel_array,
    visitItems_of_keepAt_eq_none (keepAt_of_dropping h p), hpass, addAt_of_nested_eq_nil h rfl]
  simp [writeItems, Config.dropsPath, Config.dropping]

theorem visit_object_of_dropping (h : compile (.dropping cs) = .ok S) (hroot : p ≠ .root)
    (members : List (String × Value)) :
    S.visit p (.object members) = .object (passMembers S.visit p (names cs) members) := by
  -- the set at `p` has just the children of `p` among the names
  have hdrop : ∀ k, ((S.dropAt p).getD []).contains (p.key k) = (names cs).contains (p.key k) :=
    fun k => dropAt_contains h (.name k)
  have hpass : passMembers S.visit p ((S.dropAt p).getD []) members = passMembers S.visit p (names cs) members := by
    apply passMembers_congr hdrop rfl
    intro i k u w hu hw _
    cases hu.symm.trans hw
    rfl
  rw [(coherent_of_compile h).visit_eq_visitLevel hroot, visitLevel_object,
    visitMembers_of_keepAt_eq_none (keepAt_of_dropping h p), hpass, addAt_of_nested_eq_nil h rfl]
  rfl

/-! ## One after the other -/

/-- Visits by two schemas in turn are a visit by a schema that drops what either drops. -/
theorem visit_visit_of_dropping (h₁ : compile (.dropping cs₁) = .ok S₁) (h₂ : compile (.dropping cs₂) = .ok S₂)
    (h : compile (.dropping cs) = .ok S) (hindex₁ : (Config.dropping cs₁).Unindexed)
    (hindex₂ : (Config.dropping cs₂).Unindexed)
    (hnames : ∀ q, (names cs).contains q = ((names cs₁).contains q || (names cs₂).contains q)) (hroot : p ≠ .root)
    (v : Value) : S₂.visit p (S₁.visit p v) = S.visit p v := by
  have hindex : (Config.dropping cs).Unindexed := by
    intro n hn
    have hor : (names cs₁).contains n || (names cs₂).contains n :=
      (hnames n).symm.trans (List.contains_iff_mem.2 hn)
    rcases Bool.or_eq_true _ _ ▸ hor with hleft | hright
    · exact hindex₁ n (List.contains_iff_mem.1 hleft)
    · exact hindex₂ n (List.contains_iff_mem.1 hright)
  induction v generalizing p with
  | array items ih =>
    rw [visit_array_of_dropping h₁ hindex₁ hroot, visit_array_of_dropping h₂ hindex₂ hroot,
      visit_array_of_dropping h hindex hroot, hnames]
    congr 1
    -- items are left only if neither drops them, and then each item was visited twice
    cases (names cs₂).contains p.wildcard with
    | true => simp
    | false =>
      cases (names cs₁).contains p.wildcard with
      | true => simp
      | false =>
        have hitems : ∀ u ∈ items, S₂.visit p.wildcard (S₁.visit p.wildcard u) = S.visit p.wildcard u :=
          fun u hu => ih u hu (Path.child_ne_root p .wildcard)
        simpa using hitems
  | object members ih =>
    rw [visit_object_of_dropping h₁ hroot, visit_object_of_dropping h₂ hroot, visit_object_of_dropping h hroot,
      passMembers_passMembers]
    congr 1
    apply passMembers_congr _ rfl
    · intro i k u w hu hw _
      cases hu.symm.trans hw
      exact ih (k, u) (List.mem_of_getElem? hu) (Path.child_ne_root p (.name k))
    · intro k
      rw [List.contains_append, hnames]
  | _ =>
    -- a level makes nothing of a scalar
    have hscalar : ∀ {cs : List Column} {S : Schema}, compile (.dropping cs) = .ok S →
        ∀ v, S.visit p v = S.visitLevel S.visit p v :=
      fun h v => (coherent_of_compile h).visit_eq_visitLevel hroot v
    rw [hscalar h₁, hscalar h₂, hscalar h]
    rfl

theorem rewriteRecord_of_dropping (h : compile (.dropping cs) = .ok S) (r : List (String × Value)) :
    S.rewriteRecord r = r.map fun e => (e.1, S.visit (Path.field e.1) e.2) := by
  rw [rewriteRecord, rewrite_eq_visit_of_keepAt (keepAt_of_dropping h)]

theorem rewriteRecord_rewriteRecord_of_dropping (h₁ : compile (.dropping cs₁) = .ok S₁)
    (h₂ : compile (.dropping cs₂) = .ok S₂) (h : compile (.dropping cs) = .ok S)
    (hindex₁ : (Config.dropping cs₁).Unindexed) (hindex₂ : (Config.dropping cs₂).Unindexed)
    (hnames : ∀ q, (names cs).contains q = ((names cs₁).contains q || (names cs₂).contains q))
    (r : List (String × Value)) : S₂.rewriteRecord (S₁.rewriteRecord r) = S.rewriteRecord r := by
  rw [rewriteRecord_of_dropping h₁, rewriteRecord_of_dropping h₂, rewriteRecord_of_dropping h, List.map_map]
  apply List.map_congr_left
  rintro ⟨name, v⟩ _
  have hvisit := visit_visit_of_dropping h₁ h₂ h hindex₁ hindex₂ hnames (Path.child_ne_root .root (.name name)) v
  exact congrArg (fun w => (name, w)) hvisit

/-- Two lists of columns that are dropped can be put together, or be used by one configuration after the other, in
either order. -/
theorem rewriteRecord_dropping_append {cs₁ cs₂ : List Column} {S₁ S₂ : Schema}
    (h₁ : compile (.dropping cs₁) = .ok S₁) (h₂ : compile (.dropping cs₂) = .ok S₂)
    (hindex₁ : (Config.dropping cs₁).Unindexed) (hindex₂ : (Config.dropping cs₂).Unindexed) :
    ∃ S, compile (.dropping (cs₁ ++ cs₂)) = .ok S ∧
      ∀ r, S.rewriteRecord r = S₂.rewriteRecord (S₁.rewriteRecord r) ∧
        S.rewriteRecord r = S₁.rewriteRecord (S₂.rewriteRecord r) := by
  rcases compile_dropping_append h₁ h₂ with ⟨S, h⟩
  have happend : ∀ q, (names (cs₁ ++ cs₂)).contains q = ((names cs₁).contains q || (names cs₂).contains q) := by
    intro q
    rw [names, nested, List.filter_append, List.filterMap_append, List.contains_append]
    rfl
  have hswap : ∀ q, (names (cs₁ ++ cs₂)).contains q = ((names cs₂).contains q || (names cs₁).contains q) := by
    intro q
    rw [happend, Bool.or_comm]
  refine ⟨S, h, fun r => ⟨?_, ?_⟩⟩
  · exact (rewriteRecord_rewriteRecord_of_dropping h₁ h₂ h hindex₁ hindex₂ happend r).symm
  · exact (rewriteRecord_rewriteRecord_of_dropping h₂ h₁ h hindex₂ hindex₁ hswap r).symm

/-- The first list drops from what the second drops as a whole, the second drops inside what the first leaves, and
both have names of fields, which drop nothing. -/
theorem rewriteRecord_dropping_append_overlapping :
    let entry (name : String) : Column := ⟨name, none, none, none⟩
    let cs₁ := [entry "$.a[*].x", entry "$.b[*]", entry "f"]
    let cs₂ := [entry "$.a[*].y.z", entry "$.b", entry "a", entry "$.a[*].x.y", entry "$.c.k"]
    let a := Path.field "a"
    let b := Path.field "b"
    let c := Path.field "c"
    let item := a.wildcard
    let S₁ : Schema := ⟨[a, item, item.key "x", b, b.wildcard], [], [],
      [(item, [item.key "x"]), (b, [b.wildcard])]⟩
    let S₂ : Schema := ⟨[a, item, item.key "y", (item.key "y").key "z", b, item.key "x", (item.key "x").key "y",
      c, c.key "k"], [], [], [(item.key "y", [(item.key "y").key "z"]), (.root, [b]),
      (item.key "x", [(item.key "x").key "y"]), (c, [c.key "k"])]⟩
    let v : Value := .object [("x", .object [("y", .null)]), ("y", .object [("z", .null), ("x", .null)])]
    let r : List (String × Value) := [("c", .object [("k", .null)]), ("a", .array [v, .null]), ("b", .array [v]),
      ("f", .null)]
    compile (.dropping cs₁) = .ok S₁ ∧ compile (.dropping cs₂) = .ok S₂ ∧
      (Config.dropping cs₁).Unindexed ∧ (Config.dropping cs₂).Unindexed ∧
      S₂.rewriteRecord (S₁.rewriteRecord r) = [("c", .object []),
        ("a", .array [.object [("y", .object [("x", .null)])], .null]), ("b", .array []), ("f", .null)] ∧
      ∃ S, compile (.dropping (cs₁ ++ cs₂)) = .ok S ∧
        ∀ r, S.rewriteRecord r = S₂.rewriteRecord (S₁.rewriteRecord r) ∧
          S.rewriteRecord r = S₁.rewriteRecord (S₂.rewriteRecord r) := by
  intro entry cs₁ cs₂ a b c item S₁ S₂ v r
  have h₁ : compile (.dropping cs₁) = .ok S₁ := by cbv
  have h₂ : compile (.dropping cs₂) = .ok S₂ := by cbv
  have hnames₁ : (Config.dropping cs₁).names = [item.key "x", b.wildcard] := by cbv
  have hnames₂ : (Config.dropping cs₂).names =
      [(item.key "y").key "z", b, (item.key "x").key "y", c.key "k"] := by cbv
  have hindex₁ : (Config.dropping cs₁).Unindexed := by
    rw [Config.Unindexed, hnames₁]
    simp [item, a, b, Path.segments, Path.key, Path.wildcard, Path.field]
  have hindex₂ : (Config.dropping cs₂).Unindexed := by
    rw [Config.Unindexed, hnames₂]
    simp [item, a, b, c, Path.segments, Path.key, Path.wildcard, Path.field]
  exact ⟨h₁, h₂, hindex₁, hindex₂, by cbv, rewriteRecord_dropping_append h₁ h₂ hindex₁ hindex₂⟩

end Schema

end RecordFilter
