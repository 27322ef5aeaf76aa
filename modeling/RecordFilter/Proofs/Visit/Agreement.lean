import RecordFilter.Proofs.Schema.Meaning
import RecordFilter.Proofs.Visit.Restriction

namespace RecordFilter

/-! # What a visit depends on

At each path a visit looks up what is kept, added and dropped there, and at which paths the items of an array are
visited. Schemas that agree in this (`AgreeAt`) make the same of a level, so schemas that agree at all paths below some
path make the same of every value there (`Coherent.visit_eq_of_agreeAt`).

So the columns to keep are nearly without effect where columns are dropped. All that is left of them is that their names
open positions of arrays: an item at such a position is visited at a path of its own, and what is dropped below any item
of the array stays in this one (`rewriteRecord_ne_of_opened_position`). Lists of columns to keep make no difference if
they open the same positions, or if nothing is added or dropped below the items where they do not
(`rewriteRecord_eq_of_opened_positions`).
-/

open Json (Value)

namespace Schema

variable {S S' : Schema} {p : Path}

/-! ## Levels -/

/-- Two schemas say the same of the children of what is at a path. -/
structure AgreeAt (S S' : Schema) (p : Path) : Prop where
  keepAt_eq : S.keepAt p = S'.keepAt p
  addAt_eq : S.addAt p = S'.addAt p
  mem_dropAt (q : Path) : q ∈ (S.dropAt p).getD [] ↔ q ∈ (S'.dropAt p).getD []
  /-- An item is visited at one path under both, or it does not matter at which. -/
  visit_item (i : Nat) : S.itemPath p i = S'.itemPath p i ∨
    ∀ u, S.visit (S.itemPath p i) u = S'.visit (S'.itemPath p i) u

theorem AgreeAt.contains_dropAt (h : AgreeAt S S' p) (q : Path) :
    ((S.dropAt p).getD []).contains q = ((S'.dropAt p).getD []).contains q := by
  rw [List.contains_eq_mem, List.contains_eq_mem, decide_eq_decide]
  exact h.mem_dropAt q

theorem AgreeAt.passItems_eq (h : AgreeAt S S' p)
    (hbelow : ∀ s u, S.visit (p.child s) u = S'.visit (p.child s) u) (items : List Value) :
    S.passItems S.visit p ((S.dropAt p).getD []) items =
      S'.passItems S'.visit p ((S'.dropAt p).getD []) items := by
  have hdrop : ∀ i, dropsItem p ((S.dropAt p).getD []) i = dropsItem p ((S'.dropAt p).getD []) i := by
    intro i
    rw [dropsItem, dropsItem, h.contains_dropAt, h.contains_dropAt]
  apply passItems_congr hdrop rfl
  intro i u w hu hw _
  cases hu.symm.trans hw
  rcases h.visit_item i with hpath | hvisit
  · obtain ⟨s, hs⟩ := itemPath_eq_child (S := S') (p := p) i
    rw [hpath, hs]
    exact hbelow s u
  · exact hvisit u

theorem AgreeAt.passMembers_eq (h : AgreeAt S S' p)
    (hbelow : ∀ s u, S.visit (p.child s) u = S'.visit (p.child s) u) (members : List (String × Value)) :
    passMembers S.visit p ((S.dropAt p).getD []) members =
      passMembers S'.visit p ((S'.dropAt p).getD []) members := by
  apply passMembers_congr (fun k => h.contains_dropAt (p.key k)) rfl
  intro i k u w hu hw _
  cases hu.symm.trans hw
  exact hbelow (.name k) u

/-- Where schemas agree, a level comes out the same under both if the levels below do. -/
theorem AgreeAt.visitLevel_eq (h : AgreeAt S S' p) (hS : S.Coherent) (hS' : S'.Coherent)
    (hbelow : ∀ s u, S.visit (p.child s) u = S'.visit (p.child s) u) (v : Value) :
    S.visitLevel S.visit p v = S'.visitLevel S'.visit p v := by
  have hkeepAt := h.keepAt_eq
  have hreached : ∀ q u, S'.Reaches p v q u → S.visit q u = S'.visit q u := by
    intro q u hq
    obtain ⟨s, rfl⟩ := hq.below
    exact hbelow s u
  cases v with
  | array items =>
    have hadd : writeItems S.visit (S.addAt p) items = writeItems S'.visit (S'.addAt p) items := by
      rw [h.addAt_eq]
      exact hS'.writeItems_congr hreached fun d hd => mem_directivesAt_of_addAt hd
    rw [visitLevel_array, visitLevel_array]
    cases hkeep : S'.keepAt p with
    | some kept =>
      have hwrite : writeItems S.visit kept items = writeItems S'.visit kept items :=
        hS'.writeItems_congr hreached fun d hd => mem_directivesAt_of_keepAt hkeep hd
      rw [hS.visitItems_of_keepAt (hkeepAt.trans hkeep), hS'.visitItems_of_keepAt hkeep, hwrite, hadd]
    | none =>
      rw [visitItems_of_keepAt_eq_none (hkeepAt.trans hkeep), visitItems_of_keepAt_eq_none hkeep,
        h.passItems_eq hbelow, hadd]
  | object members =>
    have hadd : writeMembers S.visit (S.addAt p) members = writeMembers S'.visit (S'.addAt p) members := by
      rw [h.addAt_eq]
      exact hS'.writeMembers_congr hreached fun d hd => mem_directivesAt_of_addAt hd
    rw [visitLevel_object, visitLevel_object]
    cases hkeep : S'.keepAt p with
    | some kept =>
      have hwrite : writeMembers S.visit kept members = writeMembers S'.visit kept members :=
        hS'.writeMembers_congr hreached fun d hd => mem_directivesAt_of_keepAt hkeep hd
      rw [hS.visitMembers_of_keepAt (hkeepAt.trans hkeep), hS'.visitMembers_of_keepAt hkeep, hwrite, hadd]
    | none =>
      rw [visitMembers_of_keepAt_eq_none (hkeepAt.trans hkeep), visitMembers_of_keepAt_eq_none hkeep,
        h.passMembers_eq hbelow, hadd]
  | _ => rfl

/-! ## Visits -/

/-- Schemas that agree wherever a visit may come to, from `p` on, visit alike. Whether they enter the same paths does not
matter: below the root a path that is not entered is treated like one that is. -/
theorem Coherent.visit_eq_of_agreeAt (hS : S.Coherent) (hS' : S'.Coherent) {P : Path → Prop}
    (hroot : ∀ p, P p → p ≠ .root) (hchild : ∀ p s, P p → P (p.child s))
    (hagree : ∀ p, P p → AgreeAt S S' p) (hp : P p) (v : Value) : S.visit p v = S'.visit p v := by
  have hlevels : ∀ (n : Nat) (p : Path), P p → S.depth < n + p.depth → S'.depth < n + p.depth →
      ∀ v, S.visit p v = S'.visit p v := by
    intro n
    induction n with
    | zero =>
      -- `p` is below the deepest entered path of either schema
      intro p _ hdepth hdepth' v
      have hnot : S.visits p = false := not_visits_of_depth_lt (by omega)
      have hnot' : S'.visits p = false := not_visits_of_depth_lt (by omega)
      rw [visit_of_not_visits hnot, visit_of_not_visits hnot']
    | succ n ih =>
      intro p hp hdepth hdepth' v
      have hbelow : ∀ s u, S.visit (p.child s) u = S'.visit (p.child s) u := by
        intro s u
        have hsdepth : (p.child s).depth = p.depth + 1 := rfl
        exact ih (p.child s) (hchild p s hp) (by omega) (by omega) u
      rw [hS.visit_eq_visitLevel (hroot p hp), hS'.visit_eq_visitLevel (hroot p hp)]
      exact (hagree p hp).visitLevel_eq hS hS' hbelow v
  exact hlevels (S.depth + S'.depth + 1) p hp (by omega) (by omega) v

end Schema

/-! ## Where nothing is added or dropped -/

/-- Whether something is added or dropped below a path. -/
def Config.changesBelow (c : Config) (p : Path) : Prop :=
  ∃ n ∈ Schema.names c.addColumns ++ Schema.names c.dropColumns, p.segments <+: n.segments ∧ n ≠ p

namespace Schema

variable {c c' : Config} {S S' : Schema} {p : Path}

theorem not_changesBelow_child (h : ¬ c.changesBelow p) (s : Segment) : ¬ c.changesBelow (p.child s) := by
  rintro ⟨n, hn, hprefix, _⟩
  have hparent : p.segments <+: n.segments := (List.prefix_append _ [s]).trans hprefix
  have hne : n ≠ p := by
    rintro rfl
    have hlength := hprefix.length_le
    simp only [Path.segments, List.length_append, List.length_singleton] at hlength
    omega
  exact h ⟨n, hn, hparent, hne⟩

theorem namesBelow_eq_nil (h : ¬ c.changesBelow p) :
    namesBelow p c.addColumns = [] ∧ namesBelow p c.dropColumns = [] := by
  have hnone : ∀ n ∈ names c.addColumns ++ names c.dropColumns, p.isChildOf n = false := by
    intro n hn
    cases n with
    | root => rfl
    | child q s =>
      -- a child of `p` would be a change below `p`
      by_contra hchild
      have hq : q = p := by simpa [Path.isChildOf] using hchild
      subst hq
      exact h ⟨q.child s, hn, List.prefix_append _ [s], Path.child_ne_self q s⟩
  constructor
  · apply List.filter_eq_nil_iff.2
    intro n hn
    simp [hnone n (List.mem_append_left _ hn)]
  · apply List.filter_eq_nil_iff.2
    intro n hn
    simp [hnone n (List.mem_append_right _ hn)]

/-- Where no columns are kept, values are left as they are if nothing is added or dropped below. -/
theorem visit_of_not_changesBelow (h : compile c = .ok S) (hdrop : c.dropColumns ≠ [])
    (hroot : p ≠ .root) (hp : ¬ c.changesBelow p) (v : Value) : S.visit p v = v := by
  have hlevel := fun {p : Path} hroot v => (coherent_of_compile h).visit_eq_visitLevel (p := p) hroot v
  have hself : ∀ v : Value, ∀ p : Path, p ≠ .root → ¬ c.changesBelow p →
      (∀ s, ∀ u ∈ v.children, S.visit (p.child s) u = u) → S.visit p v = v := by
    intro v p hroot hp hbelow
    obtain ⟨hadd, hdropped⟩ := namesBelow_eq_nil hp
    rw [hlevel hroot]
    exact visitLevel_eq_self (keepAt_of_drops h hdrop p) (addAt_of_namesBelow_eq_nil h hadd)
      ((dropAt_eq_none_iff h p).2 hdropped) hbelow
  induction v generalizing p with
  | array items ih =>
    apply hself _ _ hroot hp
    intro s u hu
    exact ih u hu (Path.child_ne_root p s) (not_changesBelow_child hp s)
  | object members ih =>
    apply hself _ _ hroot hp
    intro s u hu
    obtain ⟨e, he, rfl⟩ := List.mem_map.1 hu
    exact ih e he (Path.child_ne_root p s) (not_changesBelow_child hp s)
  | _ => exact hself _ _ hroot hp fun s u hu => nomatch hu

theorem leads_of_changesBelow (h : c.changesBelow p) : c.leads p := by
  obtain ⟨n, hn, hprefix, _⟩ := h
  refine List.any_eq_true.2 ⟨n, ?_, List.isPrefixOf_iff_prefix.2 hprefix⟩
  rw [Config.names, List.append_assoc]
  exact List.mem_append_right _ hn

/-- An item is left as it is if nothing is added or dropped below it, neither by its position nor by a wildcard. -/
theorem visit_itemPath_of_not_changesBelow (h : compile c = .ok S) (hdrop : c.dropColumns ≠ []) {i : Nat}
    (hindex : ¬ c.changesBelow (p.index i)) (hwildcard : ¬ c.changesBelow p.wildcard) (u : Value) :
    S.visit (S.itemPath p i) u = u := by
  unfold itemPath
  split
  · exact visit_of_not_changesBelow h hdrop (Path.child_ne_root _ _) hindex u
  · exact visit_of_not_changesBelow h hdrop (Path.child_ne_root _ _) hwildcard u

/-! ## Columns that are not kept -/

/-- Two configurations open the positions of arrays alike, or else change nothing below their items. -/
def Config.opensAlike (c c' : Config) : Prop :=
  ∀ (q : Path) (i : Nat), c.leads (q.index i) = c'.leads (q.index i) ∨ ¬ c.changesBelow q.wildcard

/-- Where the same columns are added and dropped, and positions are opened alike, schemas agree. -/
theorem agreeAt_of_drops {columns columns' addColumns dropColumns : List Column}
    (h : compile ⟨columns, addColumns, dropColumns⟩ = .ok S)
    (h' : compile ⟨columns', addColumns, dropColumns⟩ = .ok S') (hdrop : dropColumns ≠ [])
    (hopened : Config.opensAlike ⟨columns, addColumns, dropColumns⟩ ⟨columns', addColumns, dropColumns⟩)
    (p : Path) : AgreeAt S S' p := by
  refine ⟨?keep, ?add, ?drop, ?item⟩
  case keep => rw [keepAt_of_drops h hdrop, keepAt_of_drops h' hdrop]
  case add =>
    obtain ⟨_, add, _, hadd, rfl⟩ := eq_of_compile h
    obtain ⟨_, add', _, hadd', rfl⟩ := eq_of_compile h'
    rw [hadd] at hadd'
    cases hadd'
    rfl
  case drop =>
    intro q
    rw [mem_dropAt_of_compile h, mem_dropAt_of_compile h']
  case item =>
    intro i
    by_cases hleads : Config.leads ⟨columns, addColumns, dropColumns⟩ (p.index i) =
        Config.leads ⟨columns', addColumns, dropColumns⟩ (p.index i)
    · left
      rw [itemPath_eq_stepPath h, itemPath_eq_stepPath h', Config.stepPath, Config.stepPath, hleads]
    · right
      -- only a column to keep opens the position, so there is no change below it
      have hwildcard := (hopened p i).resolve_left hleads
      have hindex : ¬ Config.changesBelow ⟨columns, addColumns, dropColumns⟩ (p.index i) := by
        intro hchange
        have hleft := leads_of_changesBelow hchange
        have hright := leads_of_changesBelow (c := ⟨columns', addColumns, dropColumns⟩) hchange
        exact hleads (hleft.trans hright.symm)
      intro u
      rw [visit_itemPath_of_not_changesBelow h hdrop hindex hwildcard,
        visit_itemPath_of_not_changesBelow h' hdrop hindex hwildcard]

/-- Where columns are dropped, two lists of columns to keep make no difference if they open the same positions of arrays
with their names. -/
theorem rewriteRecord_eq_of_opened_positions {columns columns' addColumns dropColumns : List Column}
    {S S' : Schema} (h : compile ⟨columns, addColumns, dropColumns⟩ = .ok S)
    (h' : compile ⟨columns', addColumns, dropColumns⟩ = .ok S') (hdrop : dropColumns ≠ [])
    (hopened : Config.opensAlike ⟨columns, addColumns, dropColumns⟩ ⟨columns', addColumns, dropColumns⟩)
    (r : List (String × Value)) : S.rewriteRecord r = S'.rewriteRecord r := by
  have hagree := agreeAt_of_drops h h' hdrop hopened
  have hvisit : ∀ name v, S.visit (Path.field name) v = S'.visit (Path.field name) v := by
    intro name v
    exact (coherent_of_compile h).visit_eq_of_agreeAt (coherent_of_compile h') (P := (· ≠ .root))
      (fun _ hroot => hroot) (fun p s _ => Path.child_ne_root p s) (fun p _ => hagree p)
      (Path.child_ne_root _ _) v
  apply List.map_congr_left
  rintro ⟨name, v⟩ _
  show (name, S.rewrite (Path.field name) v) = (name, S'.rewrite (Path.field name) v)
  rw [rewrite_eq_visit_of_keepAt (keepAt_of_drops h hdrop),
    rewrite_eq_visit_of_keepAt (keepAt_of_drops h' hdrop), hvisit]

/-- Columns that open positions of two arrays: in one columns are dropped below one item only, and in the other there is
nothing to drop below the items, which are dropped themselves. -/
theorem rewriteRecord_eq_of_opened_positions_apart :
    let entry (name : String) : Column := ⟨name, none, none, none⟩
    let columns := [entry "$.a[1].z", entry "$.b[2]"]
    let dropColumns := [entry "$.a[0].x", entry "$.b[*]"]
    let a := Path.field "a"
    let b := Path.field "b"
    let dropped : List (Path × List Path) := [(a.index 0, [(a.index 0).key "x"]), (b, [b.wildcard])]
    let S : Schema := ⟨[a, a.index 1, (a.index 1).key "z", b, b.index 2, a.index 0, (a.index 0).key "x", b.wildcard],
      [], [], dropped⟩
    let S' : Schema := ⟨[a, a.index 0, (a.index 0).key "x", b, b.wildcard], [], [], dropped⟩
    let item : Value := .object [("x", .null), ("z", .null)]
    let r : List (String × Value) := [("a", .array [item, item]), ("b", .array [.null, .null, .null])]
    compile ⟨columns, [], dropColumns⟩ = .ok S ∧ compile ⟨[], [], dropColumns⟩ = .ok S' ∧ dropColumns ≠ [] ∧
      Config.opensAlike ⟨columns, [], dropColumns⟩ ⟨[], [], dropColumns⟩ ∧
      S'.rewriteRecord r = [("a", .array [.object [("z", .null)], item]), ("b", .array [])] ∧
      S.rewriteRecord r = S'.rewriteRecord r := by
  intro entry columns dropColumns a b dropped S S' item r
  have h : compile ⟨columns, [], dropColumns⟩ = .ok S := by cbv
  have h' : compile ⟨[], [], dropColumns⟩ = .ok S' := by cbv
  have hdrop : dropColumns ≠ [] := by simp [dropColumns]
  have hnames : names dropColumns = [(a.index 0).key "x", b.wildcard] := by cbv
  have hopened : Config.opensAlike ⟨columns, [], dropColumns⟩ ⟨[], [], dropColumns⟩ := by
    intro q i
    right
    rintro ⟨n, hn, hprefix, hne⟩
    have hmem : n = (a.index 0).key "x" ∨ n = b.wildcard := by
      have hn' : n ∈ names ([] : List Column) ++ names dropColumns := hn
      rw [hnames] at hn'
      simpa [names, nested] using hn'
    have hlast : Segment.wildcard ∈ n.segments := by
      apply hprefix.subset
      simp [Path.wildcard, Path.segments]
    rcases hmem with rfl | rfl
    · -- the first name has no wildcard
      simp [a, Path.key, Path.index, Path.field, Path.segments] at hlast
    · -- the second ends in its wildcard, and nothing is below that
      apply hne
      apply Path.segments_inj.1
      have hq : 0 < q.segments.length := by
        apply List.length_pos_iff.2
        intro hnil
        simp [Path.wildcard, Path.segments, hnil, b, Path.field] at hprefix
      have hlength : b.wildcard.segments.length ≤ q.wildcard.segments.length := by
        simp only [b, Path.wildcard, Path.field, Path.segments, List.length_append, List.length_singleton,
          List.length_nil]
        omega
      have heq := hprefix.eq_of_length_le hlength
      exact heq.symm
  exact ⟨h, h', hdrop, hopened, by cbv, rewriteRecord_eq_of_opened_positions h h' hdrop hopened r⟩

/-- A column that is not kept keeps the second item from being treated like any item: what is dropped from each item
stays in it. -/
theorem rewriteRecord_ne_of_opened_position :
    let entry (name : String) : Column := ⟨name, none, none, none⟩
    let columns := [entry "$.a[1].z"]
    let dropColumns := [entry "$.a[*].x"]
    let a := Path.field "a"
    let dropped : List (Path × List Path) := [(a.wildcard, [a.wildcard.key "x"])]
    let S : Schema := ⟨[a, a.index 1, (a.index 1).key "z", a.wildcard, a.wildcard.key "x"], [], [], dropped⟩
    let S' : Schema := ⟨[a, a.wildcard, a.wildcard.key "x"], [], [], dropped⟩
    let item : Value := .object [("x", .null)]
    let r : List (String × Value) := [("a", .array [item, item])]
    compile ⟨columns, [], dropColumns⟩ = .ok S ∧ compile ⟨[], [], dropColumns⟩ = .ok S' ∧ dropColumns ≠ [] ∧
      S.rewriteRecord r = [("a", .array [.object [], item])] ∧
      S'.rewriteRecord r = [("a", .array [.object [], .object []])] ∧
      S.rewriteRecord r ≠ S'.rewriteRecord r := by
  intro entry columns dropColumns a dropped S S' item r
  have hleft : S.rewriteRecord r = [("a", .array [.object [], item])] := by cbv
  have hright : S'.rewriteRecord r = [("a", .array [.object [], .object []])] := by cbv
  refine ⟨by cbv, by cbv, by simp [dropColumns], hleft, hright, ?_⟩
  rw [hleft, hright]
  simp [item]

end Schema

end RecordFilter
