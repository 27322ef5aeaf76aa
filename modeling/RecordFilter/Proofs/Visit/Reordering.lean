import RecordFilter.Proofs.Schema.Checks
import RecordFilter.Proofs.Schema.Meaning
import RecordFilter.Proofs.Visit.Recursion
import RecordFilter.Schema.Rewrite

namespace RecordFilter

/-! # The order of entries

Entries may be put into another order, as long as those of one list that name children of the same path stay in order among
themselves; for dropped columns there is no order at all, and they may be named again. The schema may then be another
list of tables, but what can be looked up in it is the same (`SameTables`), and nothing else reaches the result.
-/

open Json (Value)

/-- Two configurations have the same entries, and siblings that are kept or added are in the same order in both. -/
structure Config.Reorders (c c' : Config) : Prop where
  columns : c.columns.Perm c'.columns
  addColumns : c.addColumns.Perm c'.addColumns
  /-- Dropped columns may be repeated. -/
  mem_dropColumns (e : Column) : e ∈ c.dropColumns ↔ e ∈ c'.dropColumns
  columns_below (q : Path) : Schema.naming q.isChildOf c.columns = Schema.naming q.isChildOf c'.columns
  addColumns_below (q : Path) : Schema.naming q.isChildOf c.addColumns = Schema.naming q.isChildOf c'.addColumns

namespace Schema

/-- In two schemas the same can be looked up. Dropped paths are sets. -/
structure SameTables (S S' : Schema) : Prop where
  visits (p : Path) : S.visits p = S'.visits p
  keep (p : Path) : Dictionary.find? p S.keep = Dictionary.find? p S'.keep
  add (p : Path) : Dictionary.find? p S.add = Dictionary.find? p S'.add
  dropAt_eq_none (p : Path) : S.dropAt p = none ↔ S'.dropAt p = none
  mem_dropAt (p q : Path) : q ∈ (S.dropAt p).getD [] ↔ q ∈ (S'.dropAt p).getD []

variable {S S' : Schema} {c c' : Config}

/-! ## Looking up -/

theorem foldl_max_le {l : List Nat} {n m : Nat} (hm : m ≤ n) (h : ∀ k ∈ l, k ≤ n) : l.foldl max m ≤ n := by
  induction l generalizing m with
  | nil => exact hm
  | cons k l ih =>
    exact ih (Nat.max_le.2 ⟨hm, h k List.mem_cons_self⟩) fun k hk => h k (List.mem_cons_of_mem _ hk)

theorem depth_le_of_visits_imp (h : ∀ p, S.visits p → S'.visits p) : S.depth ≤ S'.depth := by
  apply foldl_max_le (Nat.zero_le _)
  intro k hk
  obtain ⟨p, hp, rfl⟩ := List.mem_map.1 hk
  exact depth_le_of_visits (h p (by simpa [visits] using hp))

namespace SameTables

variable (h : SameTables S S')
include h

theorem depth_eq : S.depth = S'.depth :=
  Nat.le_antisymm (depth_le_of_visits_imp fun p hp => h.visits p ▸ hp)
    (depth_le_of_visits_imp fun p hp => (h.visits p).symm ▸ hp)

theorem keepAt_eq (p : Path) : S.keepAt p = S'.keepAt p := by rw [keepAt, keepAt, h.keep]

theorem addAt_eq (p : Path) : S.addAt p = S'.addAt p := by rw [addAt, addAt, h.add]

/-- Where one schema drops nothing the other does not either, and otherwise both drop the same. -/
theorem dropAt_cases (p : Path) : (S.dropAt p = none ∧ S'.dropAt p = none) ∨
    ∃ dropped dropped', S.dropAt p = some dropped ∧ S'.dropAt p = some dropped' ∧
      ∀ q, dropped.contains q = dropped'.contains q := by
  cases hdrop : S.dropAt p with
  | none => exact Or.inl ⟨rfl, (h.dropAt_eq_none p).1 hdrop⟩
  | some dropped =>
    cases hdrop' : S'.dropAt p with
    | none =>
      rw [(h.dropAt_eq_none p).2 hdrop'] at hdrop
      cases hdrop
    | some dropped' =>
      refine Or.inr ⟨dropped, dropped', rfl, rfl, fun q => ?_⟩
      have hmem := h.mem_dropAt p q
      rw [hdrop, hdrop'] at hmem
      rw [List.contains_eq_mem, List.contains_eq_mem, decide_eq_decide]
      exact hmem

/-! ## Visiting and rewriting -/

variable (f g : Path → Value → Value) (p : Path)

theorem passItems_eq {dropped dropped' : List Path} (hdrop : ∀ q, dropped.contains q = dropped'.contains q)
    (items : List Value) : S.passItems f p dropped items = S'.passItems f p dropped' items := by
  simp only [passItems, dropsItem, itemPath, hdrop, h.visits]

theorem visitLevel_eq (v : Value) : S.visitLevel f p v = S'.visitLevel f p v := by
  cases v with
  | array items =>
    simp only [visitLevel_array, visitItems, h.keepAt_eq, h.addAt_eq]
    rcases h.dropAt_cases p with ⟨hdrop, hdrop'⟩ | ⟨dropped, dropped', hdrop, hdrop', hcontains⟩
    · rw [hdrop, hdrop']
      simp only [h.passItems_eq f p fun _ => rfl]
    · rw [hdrop, hdrop']
      simp only [h.passItems_eq f p hcontains]
  | object members =>
    simp only [visitLevel_object, visitMembers_eq, h.keepAt_eq, h.addAt_eq]
    rcases h.dropAt_cases p with ⟨hdrop, hdrop'⟩ | ⟨dropped, dropped', hdrop, hdrop', hcontains⟩
    · rw [hdrop, hdrop']
    · rw [hdrop, hdrop']
      simp only [passMembers, hcontains]
  | _ => rfl

theorem rewriteLevel_eq (v : Value) : S.rewriteLevel f g p v = S'.rewriteLevel f g p v := by
  cases v with
  | array items =>
    simp only [rewriteLevel_array, rewriteItems, h.keepAt_eq, h.addAt_eq]
    rcases h.dropAt_cases p with ⟨hdrop, hdrop'⟩ | ⟨dropped, dropped', hdrop, hdrop', hcontains⟩
    · rw [hdrop, hdrop']
      simp only [h.passItems_eq f p fun _ => rfl]
    · rw [hdrop, hdrop']
      simp only [h.passItems_eq f p hcontains]
  | object members =>
    simp only [rewriteLevel_object, rewriteMembers_eq, h.keepAt_eq, h.addAt_eq]
    rcases h.dropAt_cases p with ⟨hdrop, hdrop'⟩ | ⟨dropped, dropped', hdrop, hdrop', hcontains⟩
    · rw [hdrop, hdrop']
    · rw [hdrop, hdrop']
      simp only [passMembers, hcontains]
  | _ => rfl

theorem visitTo_eq (n : Nat) : S.visitTo n = S'.visitTo n := by
  induction n with
  | zero => rfl
  | succ n ih =>
    funext p v
    rw [visitTo, visitTo, h.visits, ih, h.visitLevel_eq]

theorem rewriteTo_eq (n : Nat) : S.rewriteTo n = S'.rewriteTo n := by
  induction n with
  | zero => rfl
  | succ n ih =>
    funext p v
    rw [rewriteTo, rewriteTo, h.visits, ih, h.visitTo_eq, h.rewriteLevel_eq]

/-- What can be looked up is all that matters. -/
theorem visit_eq : S.visit = S'.visit := by
  funext p v
  rw [visit, visit, h.depth_eq, h.visitTo_eq]

theorem rewrite_eq : S.rewrite = S'.rewrite := by
  funext p v
  rw [rewrite, rewrite, h.depth_eq, h.rewriteTo_eq]

theorem rewriteRecord_eq : S.rewriteRecord = S'.rewriteRecord := by
  funext r
  rw [rewriteRecord, rewriteRecord, h.rewrite_eq]

end SameTables

/-! ## Entries in another order -/

section

variable (hsame : c.Reorders c')
include hsame

theorem dropColumns_eq_nil_iff_of_reorders : c.dropColumns = [] ↔ c'.dropColumns = [] := by
  rw [List.eq_nil_iff_forall_not_mem, List.eq_nil_iff_forall_not_mem]
  exact forall_congr' fun e => not_congr (hsame.mem_dropColumns e)

/-- No check is made of the one configuration that is not made of the other. -/
theorem mem_checks_of_reorders {k : Check} (hk : k ∈ c'.checks) : k ∈ c.checks := by
  have hnested : ∀ {cs cs' : List Column}, (∀ e, e ∈ cs ↔ e ∈ cs') → ∀ {f : Column → Check},
      k ∈ (nested cs').map f → k ∈ (nested cs).map f := by
    intro cs cs' hmem f hk
    obtain ⟨e, he, rfl⟩ := List.mem_map.1 hk
    obtain ⟨he, hpath⟩ := List.mem_filter.1 he
    exact List.mem_map.2 ⟨e, List.mem_filter.2 ⟨(hmem e).2 he, hpath⟩, rfl⟩
  have hcolumns : ∀ e, e ∈ c.columns ↔ e ∈ c'.columns := fun _ => hsame.columns.mem_iff
  have hadd : ∀ e, e ∈ c.addColumns ↔ e ∈ c'.addColumns := fun _ => hsame.addColumns.mem_iff
  rw [Config.checks, List.mem_append, List.mem_append] at hk ⊢
  rcases hk with (hname | hkeep) | hadded
  · refine Or.inl (Or.inl (hnested ?_ hname))
    intro e
    simp only [List.mem_append, hcolumns, hadd, hsame.mem_dropColumns]
  · refine Or.inl (Or.inr ?_)
    by_cases hdrop : c'.dropColumns = []
    · rw [if_pos hdrop] at hkeep
      rw [if_pos ((dropColumns_eq_nil_iff_of_reorders hsame).2 hdrop)]
      exact hnested hcolumns hkeep
    · rw [if_neg hdrop] at hkeep
      cases hkeep
  · exact Or.inr (hnested hadd hadded)

theorem exists_compile_of_reorders (h : compile c = .ok S) : ∃ S', compile c' = .ok S' := by
  have hall := (exists_compile_eq_ok_iff c).1 ⟨S, h⟩
  exact (exists_compile_eq_ok_iff c').2 fun k hk => hall k (mem_checks_of_reorders hsame hk)

theorem mem_names_iff_of_reorders (p : Path) : p ∈ c.names ↔ p ∈ c'.names := by
  have hnames : ∀ {cs cs' : List Column}, (∀ e, e ∈ cs ↔ e ∈ cs') → (p ∈ names cs ↔ p ∈ names cs') := by
    intro cs cs' hmem
    simp only [names_eq_filterMap, List.mem_filterMap, hmem]
  simp only [Config.names, List.mem_append, hnames hsame.mem_dropColumns,
    hnames fun _ => hsame.columns.mem_iff, hnames fun _ => hsame.addColumns.mem_iff]

/-- Entries in another order have the same tables. -/
theorem sameTables_of_reorders (h : compile c = .ok S) (h' : compile c' = .ok S') : SameTables S S' := by
  obtain ⟨keep, add, hkeep, hadd, hS⟩ := eq_of_compile h
  obtain ⟨keep', add', hkeep', hadd', hS'⟩ := eq_of_compile h'
  have hdropped : ∀ p q, p ∈ namesBelow q c.dropColumns ↔ p ∈ namesBelow q c'.dropColumns := by
    intro p q
    simp only [namesBelow, names_eq_filterMap, List.mem_filter, List.mem_filterMap, hsame.mem_dropColumns]
  refine ⟨?visits, ?keep, ?add, ?none, ?mem⟩
  case visits =>
    intro p
    rw [Bool.eq_iff_iff, visits_iff_of_compile h, visits_iff_of_compile h']
    simp only [mem_names_iff_of_reorders hsame]
  case keep =>
    intro p
    rw [hS, hS']
    by_cases hdrop : c.dropColumns = []
    · rw [keptDirectives_of_no_drops hdrop] at hkeep
      rw [keptDirectives_of_no_drops ((dropColumns_eq_nil_iff_of_reorders hsame).1 hdrop)] at hkeep'
      exact find?_directiveTable_eq hkeep hkeep' (hsame.columns_below p)
    · rw [keptDirectives_of_drops hdrop] at hkeep
      rw [keptDirectives_of_drops (mt (dropColumns_eq_nil_iff_of_reorders hsame).2 hdrop)] at hkeep'
      cases hkeep
      cases hkeep'
      rfl
  case add =>
    intro p
    rw [hS, hS']
    exact find?_directiveTable_eq hadd hadd' (hsame.addColumns_below p)
  case none =>
    intro p
    rw [dropAt_eq_none_iff h, dropAt_eq_none_iff h', List.eq_nil_iff_forall_not_mem, List.eq_nil_iff_forall_not_mem]
    exact forall_congr' fun q => not_congr (hdropped q p)
  case mem =>
    intro p q
    rw [mem_dropAt_iff_mem_namesBelow h, mem_dropAt_iff_mem_namesBelow h', hdropped]

end

/-- A configuration that compiles also compiles with its entries in another order, if siblings stay in order, to tables in
which the same can be looked up. Every value is then visited and every record rewritten alike. -/
theorem exists_compile_eq_of_reorders (h : compile c = .ok S) (hsame : c.Reorders c') :
    ∃ S', compile c' = .ok S' ∧ SameTables S S' ∧ S.visit = S'.visit ∧ S.rewrite = S'.rewrite ∧
      ∀ r : List (String × Value), S.rewriteRecord r = S'.rewriteRecord r := by
  obtain ⟨S', h'⟩ := exists_compile_of_reorders hsame h
  have htables := sameTables_of_reorders hsame h h'
  exact ⟨S', h', htables, htables.visit_eq, htables.rewrite_eq, fun r => congrFun htables.rewriteRecord_eq r⟩

/-- A position of an array comes to stand in front of the members next to that array; of two dropped columns the first
comes to stand behind the second, which is repeated. -/
theorem exists_compile_eq_of_reorders_interleaved :
    let entry (name : String) : Column := ⟨name, none, none, none⟩
    let k := entry "$.a.k"
    let l := entry "$.a.l"
    let second := entry "$.a.l[1]"
    let f := entry "f"
    let c : Config := ⟨[k, l, second, f], [], []⟩
    let c' : Config := ⟨[second, f, k, l], [], []⟩
    let d : Config := ⟨[], [], [k, second]⟩
    let d' : Config := ⟨[], [], [second, k, second]⟩
    let a := Path.field "a"
    let kept (p : Path) (s : Segment) : Path × Directive := (p.child s, ⟨p, s, none, none, none⟩)
    let below := [kept (a.key "l") (.index 1)]
    let S : Schema := ⟨[a, a.key "k", a.key "l", (a.key "l").index 1],
      [(a, [kept a (.name "k"), kept a (.name "l")]), (a.key "l", below)], [], []⟩
    let r : List (String × Value) := [("f", .null), ("a", .object [("l", .array [.null, .bool true]), ("k", .null)])]
    compile c = .ok S ∧ c.Reorders c' ∧
      (∃ S', compile c' = .ok S' ∧ S'.keep.map Prod.fst = [a.key "l", a] ∧
        S'.rewriteRecord r = [("f", .null), ("a", .object [("k", .null), ("l", .array [.bool true])])]) ∧
      d.Reorders d' ∧ ∃ T T', compile d = .ok T ∧ compile d' = .ok T' ∧ SameTables T T' := by
  intro entry k l second f c c' d d' a kept below S r
  have h : compile c = .ok S := by cbv
  have hk : k.path? = some (a.key "k") := by cbv
  have hl : l.path? = some (a.key "l") := by cbv
  have hsecond : second.path? = some ((a.key "l").index 1) := by cbv
  have hf : f.path? = none := by cbv
  have hsame : c.Reorders c' := by
    refine ⟨?_, List.Perm.refl _, fun _ => Iff.rfl, ?_, fun _ => rfl⟩
    · have hperm : ([k, l] ++ [second, f]).Perm ([second, f] ++ [k, l]) := List.perm_append_comm
      exact hperm
    · intro q
      -- the position has another parent than the members
      by_cases hq : a.key "l" = q
      · have ha : a ≠ q := by
          rw [← hq]
          exact (Path.child_ne_self a _).symm
        simp [naming, c, c', List.filter_cons, hk, hl, hsecond, hf, Path.isChildOf, Path.key, Path.index, ha]
      · have hindex : (a.child (.name "l") == q) = false := beq_false_of_ne hq
        simp [naming, c, c', List.filter_cons, hk, hl, hsecond, hf, Path.isChildOf, Path.key, Path.index, hindex]
  have hsame' : d.Reorders d' := by
    refine ⟨List.Perm.refl _, List.Perm.refl _, ?_, fun _ => rfl, fun _ => rfl⟩
    intro e
    simp only [d, d', List.mem_cons, List.not_mem_nil, or_false]
    constructor
    · rintro (rfl | rfl)
      · exact Or.inr (Or.inl rfl)
      · exact Or.inl rfl
    · rintro (rfl | rfl | rfl)
      · exact Or.inr rfl
      · exact Or.inl rfl
      · exact Or.inr rfl
  have hd : ∃ T, compile d = .ok T := ⟨_, by cbv⟩
  obtain ⟨T, hT⟩ := hd
  obtain ⟨S', hS', htables, _, _, hrewrite⟩ := exists_compile_eq_of_reorders h hsame
  obtain ⟨T', hT', htables', _⟩ := exists_compile_eq_of_reorders hT hsame'
  have hkeep : compile c' = .ok ⟨[a, a.key "l", (a.key "l").index 1, a.key "k"],
      [(a.key "l", below), (a, [kept a (.name "k"), kept a (.name "l")])], [], []⟩ := by cbv
  refine ⟨h, hsame, ⟨S', hS', ?_, ?_⟩, hsame', T, T', hT, hT', htables'⟩
  · rw [hkeep] at hS'
    cases hS'
    rfl
  · rw [← hrewrite r]
    cbv

end Schema

end RecordFilter
