import RecordFilter.Schema.Rewrite
import RecordFilter.Proofs.Visit.Recursion

namespace RecordFilter.Schema

/-! # Rewriting makes what visiting makes

A rewrite uses its input up: a kept value is taken by the last directive that reads it. What carries the proof is that the
sources that are still to be read are still held (`ItemsHeld`, `MembersHeld`), so each directive finds what it finds in
the input. In an object this needs distinct keys, because the last member moves to the place of the one that is taken.
-/

open Json (Value)

variable {S : Schema} {consume copy : Path → Value → Value} {p : Path}

/-- A directive that takes its source writes what it would write of a copy. -/
theorem takeOr_eq_write {d : Directive} {found : Option Value}
    (h : ∀ u, found = some u → consume d.path u = copy d.path u) :
    takeOr consume copy d found = d.write copy found := by
  cases found with
  | none => rfl
  | some u => exact h u rfl

/-! ## Arrays -/

/-- The items that directives are still to read are held where they were in the array. -/
def ItemsHeld (ds : List Directive) (held : List (Option Value)) (items : List Value) : Prop :=
  ∀ d ∈ ds, ∀ i, d.sourceBase.index? = some i → held[i]?.join = items[i]?

/-- In the beginning everything is held. -/
theorem itemsHeld_map_some (ds : List Directive) (items : List Value) :
    ItemsHeld ds (items.map some) items := by
  intro d _ i _
  rw [List.getElem?_map]
  cases items[i]? with
  | none => rfl
  | some u => rfl

/-- A source that is given up at its last reader is not missed. -/
theorem ItemsHeld.next {d : Directive} {ds : List Directive} {held : List (Option Value)}
    {items : List Value} (h : ItemsHeld (d :: ds) held items) (i : Nat) :
    ItemsHeld ds (if ds.any fun e => e.sourceBase.index? == some i then held else held.set i none)
      items := by
  intro e he j hj
  have hheld := h e (List.mem_cons_of_mem _ he) j hj
  split
  · exact hheld
  · next hlast =>
    -- no directive that is still to come reads position `i`
    have hne : i ≠ j := by
      intro hij
      apply hlast
      exact List.any_eq_true.2 ⟨e, he, by simp [hj, hij]⟩
    rw [List.getElem?_set_ne hne]
    exact hheld

theorem takeItems_eq_writeItems {items : List Value}
    (h : ∀ q, ∀ u ∈ items, consume q u = copy q u) {ds : List Directive}
    {held : List (Option Value)} (hheld : ItemsHeld ds held items) :
    takeItems consume copy ds held = writeItems copy ds items := by
  induction ds generalizing held with
  | nil => rfl
  | cons d ds ih =>
    unfold takeItems
    split
    · next hindex =>
      -- a key is no position: nothing is found, and nothing is taken
      have hrest : ItemsHeld ds held items := fun e he => hheld e (List.mem_cons_of_mem _ he)
      rw [ih hrest]
      simp [writeItems, takeOr, Directive.findItem?, hindex]
    · next i hindex =>
      have hfound : held[i]?.join = d.findItem? items := by
        rw [hheld d List.mem_cons_self i hindex]
        simp [Directive.findItem?, hindex]
      have htake : takeOr consume copy d (d.findItem? items) = d.write copy (d.findItem? items) :=
        takeOr_eq_write fun u hu => h d.path u (Directive.mem_of_findItem? hu)
      simp only
      rw [ih (hheld.next i), hfound, htake]
      rfl

/-! ## Objects -/

/-- The members that directives are still to read are held, wherever they have moved. -/
structure MembersHeld (ds : List Directive) (held members : List (String × Value)) : Prop where
  nodup : (Dictionary.keys held).Nodup
  find?_eq : ∀ d ∈ ds, Dictionary.find? d.sourceBase.key held = d.findMember? members

theorem MembersHeld.next {d : Directive} {ds : List Directive} {held members : List (String × Value)}
    (h : MembersHeld (d :: ds) held members) (k : String) :
    MembersHeld ds (if ds.any fun e => e.sourceBase.key == k then held else Dictionary.swapErase k held)
      members := by
  split
  · exact ⟨h.nodup, fun e he => h.find?_eq e (List.mem_cons_of_mem _ he)⟩
  · next hlast =>
    -- no directive that is still to come reads `k`, and the other members are there, if elsewhere
    refine ⟨Dictionary.nodup_keys_swapErase h.nodup, ?_⟩
    intro e he
    have hne : e.sourceBase.key ≠ k := by
      intro hk
      apply hlast
      exact List.any_eq_true.2 ⟨e, he, by simp [hk]⟩
    rw [Dictionary.find?_swapErase_of_ne hne h.nodup]
    exact h.find?_eq e (List.mem_cons_of_mem _ he)

theorem takeMembers_eq_writeMembers {members : List (String × Value)}
    (h : ∀ q, ∀ u ∈ members.map Prod.snd, consume q u = copy q u) {ds : List Directive}
    {held : List (String × Value)} (hheld : MembersHeld ds held members) :
    takeMembers consume copy ds held = writeMembers copy ds members := by
  induction ds generalizing held with
  | nil => rfl
  | cons d ds ih =>
    have htake : takeOr consume copy d (d.findMember? members) = d.write copy (d.findMember? members) :=
      takeOr_eq_write fun u hu => h d.path u (Directive.mem_of_findMember? hu)
    unfold takeMembers
    simp only
    rw [ih (hheld.next d.sourceBase.key), hheld.find?_eq d List.mem_cons_self, htake]
    rfl

/-! ## Levels -/

/-- One level of a rewrite is one level of a visit if the levels below treat the children of the value alike. -/
theorem rewriteLevel_eq_visitLevel {v : Value} (hv : v.Distinct)
    (h : ∀ q, ∀ u ∈ v.children, consume q u = copy q u) :
    S.rewriteLevel consume copy p v = S.visitLevel copy p v := by
  cases hv with
  | @array items _ =>
    have hpass : ∀ dropped, S.passItems consume p dropped items = S.passItems copy p dropped items := by
      intro dropped
      apply passItems_congr_below
      intro i u hu
      exact h _ u (List.mem_of_getElem? hu)
    rw [rewriteLevel_array, visitLevel_array]
    unfold rewriteItems visitItems
    cases hdrop : S.dropAt p with
    | some dropped => simp only [hpass]
    | none =>
      cases hkeep : S.keepAt p with
      | some kept =>
        have htake : takeItems consume copy kept (items.map some) = writeItems copy kept items :=
          takeItems_eq_writeItems h (itemsHeld_map_some kept items)
        simp only [htake]
      | none => simp only [hpass]
  | @object members keys _ =>
    have hpass : ∀ dropped, passMembers consume p dropped members = passMembers copy p dropped members := by
      intro dropped
      apply passMembers_congr_below
      intro k u hu
      exact h _ u (List.mem_map.2 ⟨_, hu, rfl⟩)
    rw [rewriteLevel_object, visitLevel_object, rewriteMembers_eq, visitMembers_eq]
    cases hdrop : S.dropAt p with
    | some dropped => simp only [hpass]
    | none =>
      cases hkeep : S.keepAt p with
      | some kept =>
        have htake : takeMembers consume copy kept members = writeMembers copy kept members :=
          takeMembers_eq_writeMembers h ⟨keys, fun _ _ => rfl⟩
        simp only [htake]
      | none => simp only [hpass]
  | _ => rfl

theorem rewriteTo_of_not_visits {n : Nat} (h : S.visits p = false) (v : Value) : S.rewriteTo n p v = v := by
  cases n with
  | zero => rfl
  | succ n => simp [rewriteTo, h]

theorem rewrite_of_not_visits (h : S.visits p = false) (v : Value) : S.rewrite p v = v :=
  rewriteTo_of_not_visits h v

/-- A rewrite of an entered path is one level over rewrites and visits with a level less. -/
theorem exists_rewrite_of_visits (hp : S.visits p) :
    ∃ n, ∀ v, S.rewrite p v = S.rewriteLevel (S.rewriteTo n) (S.visitTo n) p v := by
  have hdepth := depth_le_of_visits hp
  have hlevels : S.depth + 1 - p.depth = S.depth - p.depth + 1 := by omega
  refine ⟨S.depth - p.depth, fun v => ?_⟩
  rw [rewrite, hlevels, rewriteTo, if_pos hp]

/-- Where nothing is kept, the members that are not dropped are passed on, and nothing is taken. -/
theorem rewriteMembers_of_keepAt_eq_none (h : S.keepAt p = none) (members : List (String × Value)) :
    S.rewriteMembers consume copy p members =
      appendMembers (passMembers consume p ((S.dropAt p).getD []) members)
        (writeMembers copy (S.addAt p) members) := by
  rw [rewriteMembers_eq]
  cases S.dropAt p with
  | some dropped => rfl
  | none => simp only [h, Option.getD_none]

theorem rewriteTo_eq_visitTo {n : Nat} {v : Value} (hv : v.Distinct) :
    S.rewriteTo n p v = S.visitTo n p v := by
  induction n generalizing p v with
  | zero => rfl
  | succ n ih =>
    unfold rewriteTo visitTo
    split
    · -- what is below has distinct keys too
      exact rewriteLevel_eq_visitLevel hv fun q u hu => ih (hv.child hu)
    · rfl

/-- A value that is given up is rewritten to what a visit makes of it. -/
theorem rewrite_eq_visit {v : Value} (hv : v.Distinct) : S.rewrite p v = S.visit p v :=
  rewriteTo_eq_visitTo hv

/-- Where nothing is kept no source is taken, and the keys need not be distinct. -/
theorem rewriteTo_eq_visitTo_of_keepAt (hkeep : ∀ p, S.keepAt p = none) (n : Nat) :
    S.rewriteTo n = S.visitTo n := by
  induction n with
  | zero => rfl
  | succ n ih =>
    funext p v
    unfold rewriteTo visitTo
    rw [ih]
    cases v with
    | array items =>
      simp only [rewriteLevel_array, visitLevel_array, rewriteItems, visitItems, hkeep]
      cases S.dropAt p with
      | some dropped => rfl
      | none => rfl
    | object members =>
      simp only [rewriteLevel_object, visitLevel_object, rewriteMembers_eq, visitMembers_eq, hkeep]
      cases S.dropAt p with
      | some dropped => rfl
      | none => rfl
    | _ => rfl

theorem rewrite_eq_visit_of_keepAt (hkeep : ∀ p, S.keepAt p = none) : S.rewrite = S.visit := by
  funext p v
  rw [rewrite, visit, rewriteTo_eq_visitTo_of_keepAt hkeep]

/-- What a rewrite is, whatever the depth of the value. -/
theorem Coherent.rewrite_eq (hS : S.Coherent) (p : Path) {v : Value} (hv : v.Distinct) :
    S.rewrite p v = if S.visits p then S.rewriteLevel S.rewrite S.visit p v else v := by
  have hlevel : S.rewriteLevel S.rewrite S.visit p v = S.visitLevel S.visit p v :=
    rewriteLevel_eq_visitLevel hv fun q u hu => rewrite_eq_visit (hv.child hu)
  rw [rewrite_eq_visit hv, hS.visit_eq, hlevel]

/-- Rewriting and visiting agree: at each path, on each value, and on each field of a record. -/
theorem rewrite_agrees_with_visit (S : Schema) :
    (∀ (p : Path) (v : Value), v.Distinct → S.rewrite p v = S.visit p v) ∧
      ∀ r : List (String × Value), (Value.object r).Distinct →
        S.rewriteRecord r = r.map fun e => (e.1, S.visitField e.1 e.2) := by
  constructor
  · intro p v hv
    exact rewrite_eq_visit hv
  · intro r hr
    apply List.map_congr_left
    rintro ⟨name, v⟩ hmem
    have hv : v.Distinct := hr.child (List.mem_map.2 ⟨(name, v), hmem, rfl⟩)
    show (name, S.rewrite (Path.field name) v) = (name, S.visitField name v)
    rw [visitField, rewrite_eq_visit hv]

/-- Two kept columns that read one member, of which only the second takes it, and two that write one key. -/
def sharing : Schema :=
  let a := Path.field "a"
  { visited := [a, a.key "x", a.key "y", a.key "0", a.index 0]
    keep := [(a, [(a.key "x", ⟨a, .name "x", none, none, some (a.key "s")⟩),
      (a.key "y", ⟨a, .name "y", none, none, some (a.key "s")⟩),
      (a.key "0", ⟨a, .name "0", none, none, none⟩), (a.index 0, ⟨a, .index 0, none, none, none⟩)])]
    add := []
    drop := [] }

theorem rewrite_agrees_with_visit_sharing :
    let a := Path.field "a"
    let v : Value := .object [("s", .object [("t", .null)]), ("0", .bool true), ("z", .string "z")]
    let r : List (String × Value) := [("a", v)]
    v.Distinct ∧ (Value.object r).Distinct ∧
      sharing.rewrite a v = .object [("x", .object [("t", .null)]), ("y", .object [("t", .null)]),
        ("0", .bool true)] ∧
      sharing.rewrite a v = sharing.visit a v ∧
      sharing.rewriteRecord r = r.map fun e => (e.1, sharing.visitField e.1 e.2) := by
  intro a v r
  have hv : v.Distinct := by simp [v, Dictionary.keys]
  have hr : (Value.object r).Distinct := by simp [r, v, Dictionary.keys]
  rcases rewrite_agrees_with_visit sharing with ⟨hvalue, hrecord⟩
  exact ⟨hv, hr, by cbv, hvalue a v hv, hrecord r hr⟩

end RecordFilter.Schema
