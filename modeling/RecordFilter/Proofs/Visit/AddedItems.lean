import RecordFilter.Proofs.Visit.Agreement

namespace RecordFilter

/-! # The position in the name of an added item

What is added to an array goes to its end, whatever position the added column names. The position has an effect all the
same. Without a source the column reads at its own position, so it writes its default only where the array has no item
there. And the name opens the position: an item that is there is visited at a path of its own and no longer at the
wildcard.

Two configurations are compared that differ in such a name (`Config.Unnamed`). Their schemas enter the same paths but for
the two items (`NamesItem.visits_eq`), so they do the same below all other children (`NamesItem.visit_child_eq`). Below
the two items nothing is named. So an array comes out the same if and only if the column writes the same and the items at
the two positions are left as they are by what is named for any item (`visit_array_eq_iff_of_positions`). An array without
the two positions always does.
-/

open Json (Value)

/-! ## A column without a name -/

/-- A configuration in which one of the added columns, with a type and a default but no source, has no name yet. -/
structure Config.Unnamed where
  columns : List Column
  before : List Column
  type : ColumnType
  literal : Value
  after : List Column
  dropColumns : List Column

namespace Config.Unnamed

variable (u : Unnamed)

/-- The column with a name. -/
def column (name : String) : Column := ⟨name, some u.type, some u.literal, none⟩

/-- The configuration with a name for the column. -/
def named (name : String) : Config := ⟨u.columns, u.before ++ u.column name :: u.after, u.dropColumns⟩

/-- The paths that all other entries name. -/
def otherNames : List Path :=
  Schema.names u.columns ++ Schema.names u.before ++ Schema.names u.after ++ Schema.names u.dropColumns

/-- The column names an item of the array at `p`. No other entry names this item or a path below it. -/
structure NamesItem (p : Path) (i : Nat) (name : String) (S : Schema) : Prop where
  path?_eq : (u.column name).path? = some (p.index i)
  compiled : Schema.compile (u.named name) = .ok S
  alone : ∀ n ∈ u.otherNames, ¬ (p.index i).segments <+: n.segments

/-- The directive of the column: it writes the item at `i` or else a default. -/
def directive (p : Path) (i : Nat) (w : Value) : Directive := ⟨p, .index i, some u.type, some w, none⟩

/-- The directive of the column at `j` for the one at `i`, and any other directive as it is. -/
def moved (p : Path) (i j : Nat) (w : Value) (d : Directive) : Directive :=
  if d.path = p.index i then u.directive p j w else d

variable {u : Unnamed} {p : Path} {i j : Nat} {w : Value} {d : Directive}

theorem moved_directive : u.moved p i j w (u.directive p i w) = u.directive p j w := if_pos rfl

theorem moved_of_ne (h : d.path ≠ p.index i) : u.moved p i j w d = d := if_neg h

/-- Among directives that write elsewhere, only that of the column is another one. -/
theorem map_moved {front back : List Directive} (h : ∀ d ∈ front ++ back, d.path ≠ p.index i) :
    (front ++ u.directive p i w :: back).map (u.moved p i j w) = front ++ u.directive p j w :: back := by
  have hfront : front.map (u.moved p i j w) = front.map id :=
    List.map_congr_left fun d hd => moved_of_ne (h d (List.mem_append_left _ hd))
  have hback : back.map (u.moved p i j w) = back.map id :=
    List.map_congr_left fun d hd => moved_of_ne (h d (List.mem_append_right _ hd))
  rw [List.map_append, List.map_cons, moved_directive, hfront, hback, List.map_id, List.map_id]

end Config.Unnamed

/-- Whether a default can be converted, and to what, does not depend on the name of the column. -/
theorem resolveDefault_of_name {name : String} {type : ColumnType} {literal w : Value}
    (h : resolveDefault name type literal = .ok w) (name' : String) : resolveDefault name' type literal = .ok w := by
  unfold resolveDefault at h ⊢
  split at h
  · cases h
  · cases h
  · simpa using h
  · cases hconvert : Literal.convert? type literal with
    | none =>
      rw [hconvert] at h
      cases h
    | some v =>
      rw [hconvert] at h
      simpa using h

open Config (Unnamed)

namespace Schema

variable {u : Unnamed} {p q : Path} {i j : Nat} {name name' : String} {S S' : Schema}

theorem passItems_eq_iff {f g : Path → Value → Value} {dropped : List Path} {items : List Value} :
    S.passItems f p dropped items = S'.passItems g p dropped items ↔
      ∀ k x, items[k]? = some x → dropsItem p dropped k = false →
        f (S.itemPath p k) x = g (S'.itemPath p k) x := by
  rw [passItems, passItems, List.map_inj_left]
  simp only [List.mem_filter, List.mem_zipIdx_iff_getElem?, Prod.forall]
  grind

/-- What is added at a path, put in one by one. -/
theorem addAt_eq_of_add_eq {ds : List Directive} (h : S.add = directiveTable ds) (q : Path) :
    S.addAt q = (Dictionary.ofList ((ds.filter fun d => d.parent = q).map fun d => (d.path, d))).map Prod.snd := by
  rw [addAt, h, find?_directiveTable]
  split
  · next hnil =>
    rw [hnil]
    rfl
  · rfl

theorem mem_of_mem_addAt {ds : List Directive} (h : S.add = directiveTable ds) {d : Directive} (hd : d ∈ S.addAt q) :
    d ∈ ds := by
  rw [addAt_eq_of_add_eq h] at hd
  obtain ⟨⟨r, _⟩, hmem, rfl⟩ := List.mem_map.1 hd
  obtain ⟨e, he, heq⟩ := List.mem_map.1 (Dictionary.mem_of_mem_ofList hmem)
  cases heq
  exact (List.mem_filter.1 he).1

/-- A directive at whose path no other one writes is there. -/
theorem mem_addAt_of_mem {ds : List Directive} (h : S.add = directiveTable ds) {d : Directive} (hd : d ∈ ds)
    (honly : ∀ e ∈ ds, e.path = d.path → e = d) : d ∈ S.addAt d.parent := by
  have hkey : d.path ∈ Dictionary.keys
      (Dictionary.ofList ((ds.filter fun e => e.parent = d.parent).map fun e => (e.path, e))) := by
    have hpair : (d.path, d) ∈ (ds.filter fun e => e.parent = d.parent).map fun e => (e.path, e) :=
      List.mem_map.2 ⟨d, List.mem_filter.2 ⟨hd, decide_eq_true rfl⟩, rfl⟩
    exact Dictionary.mem_keys_ofList.2 (List.mem_map.2 ⟨_, hpair, rfl⟩)
  obtain ⟨⟨r, e⟩, hmem, hr⟩ := List.mem_map.1 hkey
  obtain ⟨e', he', heq⟩ := List.mem_map.1 (Dictionary.mem_of_mem_ofList hmem)
  cases heq
  rw [addAt_eq_of_add_eq h]
  rw [honly e (List.mem_filter.1 he').1 hr] at hmem
  exact List.mem_map.2 ⟨_, hmem, rfl⟩

/-- Where directives are replaced one by one by others with the same parents, and different paths stay different, so they
are in what is added. -/
theorem addAt_eq_map {ds : List Directive} {σ : Path → Path} {g : Directive → Directive} (hσ : Function.Injective σ)
    (h : S.add = directiveTable ds) (h' : S'.add = directiveTable (ds.map g))
    (hparent : ∀ d ∈ ds, (g d).parent = d.parent) (hpath : ∀ d ∈ ds, (g d).path = σ d.path) (q : Path) :
    S'.addAt q = (S.addAt q).map g := by
  have hfilter : (ds.map g).filter (fun d => d.parent = q) = (ds.filter fun d => d.parent = q).map g := by
    rw [List.filter_map]
    congr 1
    apply List.filter_congr
    intro d hd
    rw [Function.comp_apply, hparent d hd]
  have hpairs : ((ds.filter fun d => d.parent = q).map g).map (fun d => (d.path, d)) =
      ((ds.filter fun d => d.parent = q).map fun d => (d.path, d)).map (Prod.map σ g) := by
    rw [List.map_map, List.map_map]
    apply List.map_congr_left
    intro d hd
    rw [Function.comp_apply, hpath d (List.mem_filter.1 hd).1]
    rfl
  rw [addAt_eq_of_add_eq h, addAt_eq_of_add_eq h', hfilter, hpairs, ← Dictionary.map_ofList hσ, List.map_map,
    List.map_map]
  rfl

end Schema

namespace Config.Unnamed.NamesItem

open Schema

variable {u : Unnamed} {p q : Path} {i j : Nat} {name name' : String} {S S' : Schema}

/-! ## What is entered -/

theorem mem_names_iff (h : u.NamesItem p i name S) {n : Path} :
    n ∈ (u.named name).names ↔ n ∈ u.otherNames ∨ n = p.index i := by
  have hadded : Schema.names (u.named name).addColumns =
      Schema.names u.before ++ p.index i :: Schema.names u.after := by
    rw [names_eq_filterMap, names_eq_filterMap, names_eq_filterMap]
    show (u.before ++ u.column name :: u.after).filterMap Column.path? = _
    rw [List.filterMap_append, List.filterMap_cons_some h.path?_eq]
  rw [Config.names, hadded, otherNames]
  simp only [List.mem_append, List.mem_cons]
  show ((n ∈ Schema.names u.columns ∨ _) ∨ n ∈ Schema.names u.dropColumns) ↔ _
  tauto

/-- The item is entered, the paths that lead to its array, and what other entries name. -/
theorem visits_iff (h : u.NamesItem p i name S) :
    S.visits q ↔ (∃ n ∈ u.otherNames, q ∈ n.prefixes) ∨ q ∈ p.prefixes ∨ q = p.index i := by
  rw [visits_iff_of_compile h.compiled]
  constructor
  · rintro ⟨n, hn, hq⟩
    rcases h.mem_names_iff.1 hn with hother | rfl
    · exact Or.inl ⟨n, hother, hq⟩
    · exact Or.inr (Path.mem_prefixes_child.1 hq)
  · rintro (⟨n, hn, hq⟩ | hq)
    · exact ⟨n, h.mem_names_iff.2 (Or.inl hn), hq⟩
    · exact ⟨p.index i, h.mem_names_iff.2 (Or.inr rfl), Path.mem_prefixes_child.2 hq⟩

/-- The two schemas enter the same paths but for the two items. -/
theorem visits_eq (h : u.NamesItem p i name S) (h' : u.NamesItem p j name' S') (hi : q ≠ p.index i)
    (hj : q ≠ p.index j) : S.visits q = S'.visits q := by
  rw [Bool.eq_iff_iff, h.visits_iff, h'.visits_iff]
  simp only [hi, hj]

theorem visits_parent (h : u.NamesItem p i name S) (hp : p ≠ .root) : S.visits p :=
  h.visits_iff.2 (Or.inr (Or.inl (Path.self_mem_prefixes hp)))

theorem visits_index (h : u.NamesItem p i name S) : S.visits (p.index i) :=
  h.visits_iff.2 (Or.inr (Or.inr rfl))

/-- Only its own name enters an item. -/
theorem not_visits_index (h : u.NamesItem p i name S) (h' : u.NamesItem p j name' S') (hij : i ≠ j) :
    S.visits (p.index j) = false := by
  rw [Bool.eq_false_iff]
  intro hvisits
  rcases h.visits_iff.1 hvisits with ⟨n, hn, hprefix⟩ | hprefix | heq
  · exact h'.alone n hn (Path.mem_prefixes_iff.1 hprefix).2
  · exact Path.child_notMem_prefixes p (.index j) hprefix
  · cases heq
    exact hij rfl

/-- Below the item nothing is entered. -/
theorem not_visits_child (h : u.NamesItem p i name S) (s : Segment) : S.visits ((p.index i).child s) = false := by
  rw [Bool.eq_false_iff]
  intro hvisits
  rcases h.visits_iff.1 hvisits with ⟨n, hn, hprefix⟩ | hprefix | heq
  · exact h.alone n hn ((List.prefix_append _ [s]).trans (Path.mem_prefixes_iff.1 hprefix).2)
  · exact Path.child_notMem_prefixes p (.index i) (Path.mem_prefixes_of_child hprefix (Path.child_ne_root _ _))
  · exact Path.child_ne_self _ _ heq

/-- So a visit leaves the item as it is. -/
theorem visit_index (h : u.NamesItem p i name S) (v : Value) : S.visit (p.index i) v = v :=
  (coherent_of_compile h.compiled).visit_of_not_visits_child h.not_visits_child v

/-! ## What stands in the tables -/

theorem keep_eq (h : u.NamesItem p i name S) (h' : u.NamesItem p j name' S') : S.keep = S'.keep := by
  obtain ⟨keep, _, hkeep, _, rfl⟩ := eq_of_compile h.compiled
  obtain ⟨keep', _, hkeep', _, rfl⟩ := eq_of_compile h'.compiled
  have hsame : keptDirectives (u.named name) = keptDirectives (u.named name') := rfl
  rw [hsame, hkeep'] at hkeep
  cases hkeep
  rfl

theorem drop_eq (h : u.NamesItem p i name S) (h' : u.NamesItem p j name' S') : S.drop = S'.drop := by
  obtain ⟨_, _, _, _, rfl⟩ := eq_of_compile h.compiled
  obtain ⟨_, _, _, _, rfl⟩ := eq_of_compile h'.compiled
  rfl

/-- What is added is what the entries in front of the column add, the column and the entries behind it. -/
theorem exists_add_eq (h : u.NamesItem p i name S) :
    ∃ w front back, resolveDefault name u.type u.literal = .ok w ∧ directives .add u.before = .ok front ∧
      directives .add u.after = .ok back ∧ (∀ d ∈ front ++ back, d.path ∈ u.otherNames) ∧
      S.add = directiveTable (front ++ u.directive p i w :: back) := by
  obtain ⟨_, add, _, hadd, rfl⟩ := eq_of_compile h.compiled
  have hnested : (u.column name).isNested := by
    have hpath := h.path?_eq
    unfold Column.path? at hpath
    split at hpath
    · assumption
    · cases hpath
  have hparse : Path.parse name = .ok (p.index i) := by
    have hpath := h.path?_eq
    rw [Column.path?, if_pos hnested] at hpath
    cases hread : Path.parse (u.column name).name with
    | error e =>
      rw [hread] at hpath
      cases hpath
    | ok n =>
      rw [hread] at hpath
      cases hpath
      exact hread
  have hlist : nested (u.named name).addColumns = nested u.before ++ u.column name :: nested u.after := by
    show nested (u.before ++ u.column name :: u.after) = _
    rw [nested, List.filter_append, List.filter_cons_of_pos hnested]
    rfl
  rw [directives, hlist, List.mapM_append] at hadd
  obtain ⟨front, hfront, hadd⟩ := bind_eq_ok.1 hadd
  obtain ⟨rest, hrest, hadd⟩ := bind_eq_ok.1 hadd
  cases hadd
  rw [List.mapM_cons] at hrest
  obtain ⟨d, hd, hrest⟩ := bind_eq_ok.1 hrest
  obtain ⟨back, hback, hrest⟩ := bind_eq_ok.1 hrest
  cases hrest
  obtain ⟨path, hpath, hd⟩ := bind_eq_ok.1 hd
  cases (Directive.parsePath_eq_ok.2 hparse).symm.trans hpath
  obtain ⟨w, hw, hd⟩ := bind_eq_ok.1 hd
  cases hd
  refine ⟨w, front, back, hw, hfront, hback, ?_, rfl⟩
  intro d hd
  rcases List.mem_append.1 hd with hd | hd
  · simp [otherNames, path_mem_names hfront hd]
  · simp [otherNames, path_mem_names hback hd]

theorem path_ne (h : u.NamesItem p i name S) {e : Directive} (he : e.path ∈ u.otherNames) : e.path ≠ p.index i := by
  intro heq
  exact h.alone e.path he (heq ▸ List.prefix_refl _)

/-- The directive of the column stands in one place in what is added, and in the other schema there stands the same
directive for the other position. -/
theorem exists_addAt_eq (h : u.NamesItem p i name S) (h' : u.NamesItem p j name' S') :
    ∃ w, resolveDefault name u.type u.literal = .ok w ∧ u.directive p i w ∈ S.addAt p ∧
      (∀ q, ∀ d ∈ S.addAt q, d = u.directive p i w ∨ d.path ≠ p.index i) ∧
      ∀ q, S'.addAt q = (S.addAt q).map (u.moved p i j w) := by
  obtain ⟨w, front, back, hw, hfront, hback, hnames, hadd⟩ := h.exists_add_eq
  obtain ⟨w', front', back', hw', hfront', hback', _, hadd'⟩ := h'.exists_add_eq
  cases hfront.symm.trans hfront'
  cases hback.symm.trans hback'
  cases (resolveDefault_of_name hw name').symm.trans hw'
  have hcases : ∀ d ∈ front ++ u.directive p i w :: back,
      d = u.directive p i w ∨ d.path ≠ p.index i ∧ d.path ≠ p.index j := by
    intro d hd
    have hmem : d = u.directive p i w ∨ d ∈ front ++ back := by simpa [or_left_comm] using hd
    exact hmem.imp_right fun hother => ⟨h.path_ne (hnames d hother), h'.path_ne (hnames d hother)⟩
  rw [← map_moved (i := i) fun d hd => h.path_ne (hnames d hd)] at hadd'
  refine ⟨w, hw, ?column, fun q d hd => (hcases d (mem_of_mem_addAt hadd hd)).imp_right And.left, ?moved⟩
  case column =>
    apply mem_addAt_of_mem hadd (d := u.directive p i w) (by simp)
    intro d hd hpath
    exact (hcases d hd).resolve_right fun hne => hne.1 hpath
  case moved =>
    -- the paths of the two items change places
    apply addAt_eq_map (Equiv.swap (p.index i) (p.index j)).injective hadd hadd'
    · intro d hd
      rcases hcases d hd with rfl | ⟨hi, _⟩
      · rw [moved_directive]
        rfl
      · rw [moved_of_ne hi]
    · intro d hd
      rcases hcases d hd with rfl | ⟨hi, hj⟩
      · rw [moved_directive]
        exact (Equiv.swap_apply_left _ _).symm
      · rw [moved_of_ne hi, Equiv.swap_apply_of_ne_of_ne hi hj]

/-! ## What both schemas do -/

section Both

variable (h : u.NamesItem p i name S) (h' : u.NamesItem p j name' S')
include h h'

theorem keepAt_eq (q : Path) : S.keepAt q = S'.keepAt q := by rw [keepAt, keepAt, h.keep_eq h']

theorem dropAt_eq (q : Path) : S.dropAt q = S'.dropAt q := by rw [dropAt, dropAt, h.drop_eq h']

/-- At another path nothing is different. -/
theorem agreeAt (hq : q ≠ p) : AgreeAt S S' q := by
  have hindex : ∀ k l, q.index k ≠ p.index l := by
    intro k l heq
    exact hq (Path.child.inj heq).1
  refine ⟨h.keepAt_eq h' q, ?add, fun r => by rw [h.dropAt_eq h'], fun k => Or.inl ?item⟩
  case add =>
    obtain ⟨w, _, _, _, hmoved⟩ := h.exists_addAt_eq h'
    have hsame : (S.addAt q).map (u.moved p i j w) = (S.addAt q).map id := by
      apply List.map_congr_left
      intro d hd
      apply moved_of_ne
      -- what is added at `q` writes at children of `q`
      rw [(coherent_of_compile h.compiled).path_eq_child (mem_directivesAt_of_addAt hd)]
      intro heq
      exact hq (Path.child.inj heq).1
    rw [hmoved, hsame, List.map_id]
  case item => rw [itemPath, itemPath, h.visits_eq h' (hindex k i) (hindex k j)]

/-- Below the array both schemas do the same, also at the two items, whether these are entered or not. -/
theorem visit_child_eq (s : Segment) (v : Value) : S.visit (p.child s) v = S'.visit (p.child s) v := by
  have hself : (p.child s).segments = p.segments ++ [s] := rfl
  apply (coherent_of_compile h.compiled).visit_eq_of_agreeAt (coherent_of_compile h'.compiled)
    (P := fun q => (p.child s).segments <+: q.segments) ?root ?child ?agree (List.prefix_refl _)
  case root =>
    rintro q hq rfl
    rw [hself, Path.segments, List.prefix_nil] at hq
    simp at hq
  case child => exact fun q t hq => hq.trans (List.prefix_append _ [t])
  case agree =>
    intro q hq
    apply h.agreeAt h'
    rintro rfl
    have hlength := hq.length_le
    rw [hself, List.length_append, List.length_singleton] at hlength
    omega

theorem visit_eq_of_reaches {v : Value} : ∀ q u, S.Reaches p v q u → S.visit q u = S'.visit q u := by
  intro q u hq
  obtain ⟨s, rfl⟩ := hq.below
  exact h.visit_child_eq h' s u

/-- What the column adds is the same if and only if it finds the same at both positions, or writes its default. -/
theorem exists_writeItems_addAt_eq_iff :
    ∃ w, resolveDefault name u.type u.literal = .ok w ∧ ∀ xs : List Value,
      writeItems S.visit (S.addAt p) xs = writeItems S'.visit (S'.addAt p) xs ↔ xs[i]?.getD w = xs[j]?.getD w := by
  obtain ⟨w, hw, hcolumn, hcases, hmoved⟩ := h.exists_addAt_eq h'
  have hwrite : ∀ (f : Path → Value → Value) k xs, (∀ v, f (p.index k) v = v) →
      (u.directive p k w).write f ((u.directive p k w).findItem? xs) = xs[k]?.getD w := by
    intro f k xs hf
    rw [Directive.write_of_default (u := w) rfl]
    exact hf _
  refine ⟨w, hw, fun xs => ?_⟩
  rw [hmoved, writeItems, writeItems, List.map_map, List.map_inj_left]
  constructor
  · intro heach
    have hself := heach _ hcolumn
    rwa [Function.comp_apply, moved_directive, hwrite _ _ _ h.visit_index, hwrite _ _ _ h'.visit_index] at hself
  · intro hfound d hd
    rcases hcases p d hd with rfl | hne
    · rw [Function.comp_apply, moved_directive, hwrite _ _ _ h.visit_index, hwrite _ _ _ h'.visit_index, hfound]
    · rw [Function.comp_apply, moved_of_ne hne]
      exact (coherent_of_compile h.compiled).write_congr (v := .array xs) (h.visit_eq_of_reaches h')
        (mem_directivesAt_of_addAt hd) fun u hu => Directive.mem_of_findItem? hu

/-- An item at another position is visited at the same path, and to the same result. -/
theorem visit_itemPath_eq {k : Nat} (hi : k ≠ i) (hj : k ≠ j) (v : Value) :
    S.visit (S.itemPath p k) v = S'.visit (S'.itemPath p k) v := by
  have hne : ∀ l, k ≠ l → p.index k ≠ p.index l := by
    intro l hl heq
    exact hl (Segment.index.inj (Path.child.inj heq).2)
  have hpath : S.itemPath p k = S'.itemPath p k := by
    rw [itemPath, itemPath, h.visits_eq h' (hne i hi) (hne j hj)]
  obtain ⟨s, hs⟩ := itemPath_eq_child (S := S) (p := p) k
  rw [← hpath, hs]
  exact h.visit_child_eq h' s v

variable (hij : i ≠ j)
include hij

/-- The item that the column names stays as it is under its own schema, and under the other one it is an item like any
other. -/
theorem visit_itemPath_self (v : Value) :
    S.visit (S.itemPath p i) v = v ∧ S'.visit (S'.itemPath p i) v = S.visit p.wildcard v := by
  constructor
  · rw [itemPath, if_pos h.visits_index, h.visit_index]
  · have hnot := h'.not_visits_index h hij.symm
    rw [itemPath, hnot, if_neg (by simp)]
    exact (h.visit_child_eq h' .wildcard v).symm

/-- What is passed on is the same if and only if the items at the two positions are left as they are at the wildcard. -/
theorem passItems_eq_iff {dropped : List Path} {xs : List Value} :
    S.passItems S.visit p dropped xs = S'.passItems S'.visit p dropped xs ↔
      ∀ k x, k = i ∨ k = j → xs[k]? = some x → dropsItem p dropped k = false → S.visit p.wildcard x = x := by
  have hwildcard : S.visit p.wildcard = S'.visit p.wildcard := funext (h.visit_child_eq h' .wildcard)
  rw [Schema.passItems_eq_iff]
  constructor
  · rintro heach k x (rfl | rfl) hx hdrop
    · obtain ⟨hself, hother⟩ := h.visit_itemPath_self h' hij x
      rw [← hother, ← heach k x hx hdrop, hself]
    · obtain ⟨hself, hother⟩ := h'.visit_itemPath_self h hij.symm x
      rw [hwildcard, ← hother, heach k x hx hdrop, hself]
  · intro heach k x hx hdrop
    by_cases hi : k = i
    · subst hi
      obtain ⟨hself, hother⟩ := h.visit_itemPath_self h' hij x
      rw [hself, hother, heach k x (Or.inl rfl) hx hdrop]
    · by_cases hj : k = j
      · subst hj
        obtain ⟨hself, hother⟩ := h'.visit_itemPath_self h hij.symm x
        rw [hself, hother, ← hwildcard, heach k x (Or.inr rfl) hx hdrop]
      · exact h.visit_itemPath_eq h' hi hj x

/-- Where columns are kept, nothing is passed on, and both schemas write the same. -/
theorem visitItems_eq_iff {xs : List Value} :
    S.visitItems S.visit p xs = S'.visitItems S'.visit p xs ↔
      writeItems S.visit (S.addAt p) xs = writeItems S'.visit (S'.addAt p) xs ∧
        (S.keepAt p = none → ∀ k x, k = i ∨ k = j → xs[k]? = some x →
          dropsItem p ((S.dropAt p).getD []) k = false → S.visit p.wildcard x = x) := by
  have hS := coherent_of_compile h.compiled
  have hS' := coherent_of_compile h'.compiled
  cases hkeep : S.keepAt p with
  | some kept =>
    rw [hS.visitItems_of_keepAt hkeep, hS'.visitItems_of_keepAt (h.keepAt_eq h' p ▸ hkeep),
      hS.writeItems_congr (h.visit_eq_of_reaches h') (fun d hd => mem_directivesAt_of_keepAt hkeep hd),
      List.append_cancel_left_eq]
    simp
  | none =>
    have hlength : (S.passItems S.visit p ((S.dropAt p).getD []) xs).length =
        (S'.passItems S'.visit p ((S.dropAt p).getD []) xs).length := by
      rw [passItems, passItems, List.length_map, List.length_map]
    rw [visitItems_of_keepAt_eq_none hkeep, visitItems_of_keepAt_eq_none (h.keepAt_eq h' p ▸ hkeep),
      ← h.dropAt_eq h' p, ← h.passItems_eq_iff h' hij]
    constructor
    · intro heq
      obtain ⟨hpass, hadded⟩ := List.append_inj heq hlength
      exact ⟨hadded, fun _ => hpass⟩
    · rintro ⟨hadded, hpass⟩
      rw [hpass rfl, hadded]

end Both

end Config.Unnamed.NamesItem

namespace Schema

/-- The position in the name of an added item has an effect, and this is all of it. Under two names of the column an array
comes out the same if and only if the items at the two positions, or the default in place of a missing one, are the same,
and the items there that are passed on would be left as they are at the wildcard. An array that has neither position comes
out the same. -/
theorem visit_array_eq_iff_of_positions {u : Unnamed} {p : Path} {i j : Nat} {name name' : String} {S S' : Schema}
    (h : u.NamesItem p i name S) (h' : u.NamesItem p j name' S') (hp : p ≠ .root) (hij : i ≠ j) :
    ∃ w, resolveDefault name u.type u.literal = .ok w ∧ ∀ xs : List Value,
      (S.visit p (.array xs) = S'.visit p (.array xs) ↔
        xs[i]?.getD w = xs[j]?.getD w ∧
          (S.keepAt p = none → ∀ k x, k = i ∨ k = j → xs[k]? = some x →
            dropsItem p ((S.dropAt p).getD []) k = false → S.visit p.wildcard x = x)) ∧
      (xs.length ≤ i → xs.length ≤ j → S.visit p (.array xs) = S'.visit p (.array xs)) := by
  have hS := coherent_of_compile h.compiled
  have hS' := coherent_of_compile h'.compiled
  obtain ⟨w, hw, hadd⟩ := h.exists_writeItems_addAt_eq_iff h'
  have hiff : ∀ xs : List Value, S.visit p (.array xs) = S'.visit p (.array xs) ↔
      xs[i]?.getD w = xs[j]?.getD w ∧
        (S.keepAt p = none → ∀ k x, k = i ∨ k = j → xs[k]? = some x →
          dropsItem p ((S.dropAt p).getD []) k = false → S.visit p.wildcard x = x) := by
    intro xs
    rw [hS.visit_array (h.visits_parent hp), hS'.visit_array (h'.visits_parent hp), Value.array.injEq,
      h.visitItems_eq_iff h' hij, hadd xs]
  refine ⟨w, hw, fun xs => ⟨hiff xs, fun hi hj => (hiff xs).2 ⟨?_, ?_⟩⟩⟩
  · rw [List.getElem?_eq_none hi, List.getElem?_eq_none hj]
  · rintro _ k x (rfl | rfl) hx _
    · rw [List.getElem?_eq_none hi] at hx
      cases hx
    · rw [List.getElem?_eq_none hj] at hx
      cases hx

/-- The item at one of the two positions is the default itself, and the other position is missing. -/
theorem visit_array_eq_iff_of_positions_default :
    let u : Unnamed := ⟨[], [⟨"$.a[*].y", some .boolean, some (.bool true), none⟩], .string, .string "d", [],
      [⟨"$.a[*].x", none, none, none⟩]⟩
    let a := Path.field "a"
    let y : Directive := ⟨a.wildcard, .name "y", some .boolean, some (.bool true), none⟩
    let added (i : Nat) : Directive := u.directive a i (.string "d")
    let paths (i : Nat) := [a, a.wildcard, a.wildcard.key "y", a.index i, a.wildcard.key "x"]
    let adds (i : Nat) := [(a.wildcard, [(y.path, y)]), (a, [((added i).path, added i)])]
    let drops := [(a.wildcard, [a.wildcard.key "x"])]
    let S : Schema := ⟨paths 1, [], adds 1, drops⟩
    let S' : Schema := ⟨paths 3, [], adds 3, drops⟩
    let xs : List Value := [.object [("x", .null)], .string "d"]
    u.NamesItem a 1 "$.a[1]" S ∧ u.NamesItem a 3 "$.a[3]" S' ∧ a ≠ .root ∧
      S'.visit a (.array xs) = .array [.object [("y", .bool true)], .string "d", .string "d"] ∧
      S.visit a (.array xs) = S'.visit a (.array xs) := by
  intro u a y added paths adds drops S S' xs
  have hnames : u.otherNames = [a.wildcard.key "y", a.wildcard.key "x"] := by cbv
  have h : u.NamesItem a 1 "$.a[1]" S := ⟨by cbv, by cbv, by rw [hnames]; decide⟩
  have h' : u.NamesItem a 3 "$.a[3]" S' := ⟨by cbv, by cbv, by rw [hnames]; decide⟩
  have hp : a ≠ .root := Path.child_ne_root _ _
  obtain ⟨w, hw, hiff⟩ := visit_array_eq_iff_of_positions h h' hp (by decide)
  have hdefault : w = .string "d" := by
    cases hw
    rfl
  have hxs : xs[1]?.getD w = xs[3]?.getD w := by
    rw [hdefault]
    rfl
  refine ⟨h, h', hp, by cbv, (hiff xs).1.2 ⟨hxs, ?_⟩⟩
  rintro - k x (rfl | rfl) hx -
  · cases hx
    cbv
  · cases hx

/-- An array that has an item at one of the two positions: there the column adds this item once more, and not its default. -/
theorem visit_array_ne_of_positions :
    let u : Unnamed := ⟨[], [], .string, .string "d", [], []⟩
    let a := Path.field "a"
    let added (i : Nat) : Directive := u.directive a i (.string "d")
    let S : Schema := ⟨[a, a.index 0], [], [(a, [((added 0).path, added 0)])], []⟩
    let S' : Schema := ⟨[a, a.index 5], [], [(a, [((added 5).path, added 5)])], []⟩
    let xs : List Value := [.string "x"]
    u.NamesItem a 0 "$.a[0]" S ∧ u.NamesItem a 5 "$.a[5]" S' ∧ a ≠ .root ∧
      S.visit a (.array xs) = .array [.string "x", .string "x"] ∧
      S'.visit a (.array xs) = .array [.string "x", .string "d"] ∧
      S.visit a (.array xs) ≠ S'.visit a (.array xs) := by
  intro u a added S S' xs
  have hnames : u.otherNames = [] := by cbv
  have h : u.NamesItem a 0 "$.a[0]" S := ⟨by cbv, by cbv, by simp [hnames]⟩
  have h' : u.NamesItem a 5 "$.a[5]" S' := ⟨by cbv, by cbv, by simp [hnames]⟩
  have hleft : S.visit a (.array xs) = .array [.string "x", .string "x"] := by cbv
  have hright : S'.visit a (.array xs) = .array [.string "x", .string "d"] := by cbv
  refine ⟨h, h', Path.child_ne_root _ _, hleft, hright, ?_⟩
  rw [hleft, hright]
  simp

end Schema

end RecordFilter
