import RecordFilter.Proofs.Visit.Recursion

namespace RecordFilter.Schema

/-! # Pruning is invisible

A visit leaves alone what is not on the way to a configured path. A traversal follows the same rules and enters every array
and every object (`traverse_eq`). Below the root the two make the same of every value: where no path is entered there
are no tables either, so all that a traversal does there is to put arrays and objects together again.
-/

open Json (Value)

variable {S : Schema} {p : Path}

/-! ## The traversal -/

/-- A traversal that goes down at most so many levels. -/
def traverseTo (S : Schema) : Nat → Path → Value → Value
  | 0, _, v => v
  | levels + 1, p, v => S.visitLevel (S.traverseTo levels) p v

/-- The levels of the most deeply nested default. -/
def defaultNest (S : Schema) : Nat :=
  ((S.keep ++ S.add).flatMap fun e => e.2.map fun (_, d) => (d.default.map Value.nest).getD 0).foldl max 0

/-- Traverses a value at a path. Down to the deepest entered path values may be replaced by defaults, and from there on
each level is one of a value that is there. -/
def traverse (S : Schema) (p : Path) (v : Value) : Value :=
  S.traverseTo (S.depth + 1 - p.depth + max v.nest S.defaultNest + 1) p v

/-! ## Where nothing is entered -/

theorem Coherent.not_visits_child (hS : S.Coherent) (hroot : p ≠ .root) (hp : S.visits p = false)
    (s : Segment) : S.visits (p.child s) = false := by
  cases hs : S.visits (p.child s) with
  | false => rfl
  | true =>
    have hparent := hS.visits_parent hs hroot
    rw [hp] at hparent
    cases hparent

section Unentered

variable (hS : S.Coherent) (hbelow : ∀ s, S.visits (p.child s) = false)
include hS hbelow

/-- Nothing is written below a path of which no child is entered. -/
theorem Coherent.directivesAt_eq_nil : S.directivesAt p = [] := by
  apply List.eq_nil_iff_forall_not_mem.2
  intro d hd
  have hvisit := hS.visits_directive hd
  rw [hS.path_eq_child hd, hbelow] at hvisit
  cases hvisit

theorem Coherent.keepAt_eq_none : S.keepAt p = none := by
  cases hkeep : S.keepAt p with
  | none => rfl
  | some kept =>
    have hnil : kept = [] := by
      apply List.eq_nil_iff_forall_not_mem.2
      intro d hd
      have hmem := mem_directivesAt_of_keepAt hkeep hd
      rw [hS.directivesAt_eq_nil hbelow] at hmem
      cases hmem
    exact absurd (hnil ▸ hkeep) (hS.keepAt_ne p)

theorem Coherent.addAt_eq_nil : S.addAt p = [] :=
  (List.append_eq_nil_iff.1 (hS.directivesAt_eq_nil hbelow)).2

theorem Coherent.dropAt_eq_none : S.dropAt p = none := by
  cases hdrop : S.dropAt p with
  | none => rfl
  | some dropped =>
    have hnil : dropped = [] := by
      apply List.eq_nil_iff_forall_not_mem.2
      intro q hq
      have hmem : q ∈ (S.dropAt p).getD [] := by simpa [hdrop] using hq
      rcases hS.dropped_eq hmem with ⟨s, rfl⟩
      have hvisit := hS.visits_dropped hmem
      rw [hbelow] at hvisit
      cases hvisit
    exact absurd (hnil ▸ hdrop) (hS.dropAt_ne p)

end Unentered

/-- Items that are left as they are, and none of which is dropped, make the array that they were in. -/
theorem passItems_eq_self {descend : Path → Value → Value} {items : List Value}
    (h : ∀ i u, items[i]? = some u → descend (S.itemPath p i) u = u) :
    S.passItems descend p [] items = items := by
  calc S.passItems descend p [] items
      = S.passItems (fun _ u => u) p [] items := passItems_congr_below h
    _ = items := by
        simp [passItems, dropsItem, List.filter_eq_self.2, List.zipIdx_map_fst]

/-- Members that are left as they are, and none of which is dropped, make the object that they were in. -/
theorem passMembers_eq_self {descend : Path → Value → Value} {dropped : List Path} {members : List (String × Value)}
    (hdrop : ∀ k ∈ Dictionary.keys members, dropped.contains (p.key k) = false)
    (h : ∀ k u, (k, u) ∈ members → descend (p.key k) u = u) :
    passMembers descend p dropped members = members := by
  have hall : (members.filter fun e => !dropped.contains (p.key e.1)) = members := by
    apply List.filter_eq_self.2
    intro e he
    rw [hdrop e.1 (List.mem_map.2 ⟨e, he, rfl⟩)]
    rfl
  calc passMembers descend p dropped members
      = passMembers (fun _ u => u) p dropped members := passMembers_congr_below h
    _ = members.filter fun e => !dropped.contains (p.key e.1) := List.map_id _
    _ = members := hall

/-- Where nothing is kept, added or dropped, a level changes nothing if the levels below do not. -/
theorem visitLevel_eq_self {descend : Path → Value → Value} {v : Value} (hkeep : S.keepAt p = none)
    (hadd : S.addAt p = []) (hdrop : S.dropAt p = none)
    (hbelow : ∀ s, ∀ u ∈ v.children, descend (p.child s) u = u) : S.visitLevel descend p v = v := by
  cases v with
  | array items =>
    have hpass : S.passItems descend p [] items = items := by
      apply passItems_eq_self
      intro i u hu
      rcases itemPath_eq_child (S := S) i with ⟨s, hs⟩
      rw [hs]
      exact hbelow s u (List.mem_of_getElem? hu)
    simp [visitLevel_array, visitItems, hkeep, hadd, hdrop, hpass, writeItems]
  | object members =>
    have hpass : passMembers descend p [] members = members := by
      apply passMembers_eq_self fun _ _ => rfl
      intro k u hu
      exact hbelow (.name k) u (List.mem_map.2 ⟨_, hu, rfl⟩)
    simp [visitLevel_object, visitMembers_eq, hkeep, hadd, hdrop, hpass, writeMembers, appendMembers]
  | _ => rfl

/-- Where no child is entered, one level over visits changes nothing. -/
theorem Coherent.visitLevel_of_not_visits (hS : S.Coherent) (hbelow : ∀ s, S.visits (p.child s) = false) (v : Value) :
    S.visitLevel S.visit p v = v := by
  apply visitLevel_eq_self (hS.keepAt_eq_none hbelow) (hS.addAt_eq_nil hbelow) (hS.dropAt_eq_none hbelow)
  intro s u _
  exact visit_of_not_visits (hbelow s) u

/-- A path may be entered by itself: if none of its children is, a visit changes nothing. -/
theorem Coherent.visit_of_not_visits_child (hS : S.Coherent) (hbelow : ∀ s, S.visits (p.child s) = false) (v : Value) :
    S.visit p v = v := by
  rw [hS.visit_eq]
  split
  · exact hS.visitLevel_of_not_visits hbelow v
  · rfl

/-- Below the root a visit is one level over visits, whether the path is entered or not. -/
theorem Coherent.visit_eq_visitLevel (hS : S.Coherent) (hroot : p ≠ .root) (v : Value) :
    S.visit p v = S.visitLevel S.visit p v := by
  cases hp : S.visits p with
  | true => exact hS.visit_of_visits hp v
  | false => rw [hS.visitLevel_of_not_visits (hS.not_visits_child hroot hp), visit_of_not_visits hp]

/-! ## Enough levels -/

theorem nest_le_defaultNest {d : Directive} {u : Value} (hd : d ∈ S.directivesAt p)
    (hu : d.default = some u) : u.nest ≤ S.defaultNest := by
  apply le_foldl_max
  right
  rcases exists_mem_tables_of_mem_directivesAt hd with ⟨q, t, ht, hmem⟩
  exact List.mem_flatMap.2 ⟨(p, t), ht, List.mem_map.2 ⟨(q, d), hmem, by simp [hu]⟩⟩

/-- How far a traversal goes down from `v` at `p`: where nothing is entered any more no default is written. -/
def levelsBelow (S : Schema) (p : Path) (v : Value) : Nat :=
  if p = .root ∨ S.visits p then S.depth + 1 - p.depth + max v.nest S.defaultNest + 1 else v.nest + 1

theorem levelsBelow_le (S : Schema) (p : Path) (v : Value) :
    S.levelsBelow p v ≤ S.depth + 1 - p.depth + max v.nest S.defaultNest + 1 := by
  unfold levelsBelow
  split
  · omega
  · omega

/-- From what a level leaves to the levels below, a traversal goes down less far. -/
theorem Coherent.levelsBelow_lt (hS : S.Coherent) {v u : Value} {q : Path}
    (h : S.Reaches p v q u) : S.levelsBelow q u < S.levelsBelow p v := by
  have hqdepth := h.depth_eq
  have hqroot := h.ne_root
  by_cases hp : p = .root ∨ S.visits p
  · -- `u` may be a default; either `q` is deeper, or no default comes below `q`
    have hpdepth : p.depth ≤ S.depth := by
      rcases hp with rfl | hvisit
      · exact Nat.zero_le _
      · exact depth_le_of_visits hvisit
    have hnest : u.nest ≤ max v.nest S.defaultNest := by
      rcases h.given with hchild | ⟨d, hd, _, hdefault⟩
      · have hlt := Value.nest_lt_of_mem_children hchild
        omega
      · have hle := nest_le_defaultNest hd hdefault
        omega
    unfold levelsBelow
    rw [if_pos hp]
    split
    · omega
    · omega
  · -- `u` is inside `v`, and `q` is not entered either
    rcases not_or.1 hp with ⟨hroot, hvisit⟩
    have hnot : S.visits p = false := by simpa using hvisit
    rcases h.below with ⟨s, rfl⟩
    have hqnot := hS.not_visits_child hroot hnot s
    have hchild : u ∈ v.children := by
      rcases h.given with hchild | ⟨d, hd, _, _⟩
      · exact hchild
      · rw [hS.directivesAt_eq_nil (hS.not_visits_child hroot hnot)] at hd
        cases hd
    have hlt := Value.nest_lt_of_mem_children hchild
    simp only [levelsBelow, hp, hqroot, hqnot, if_false, false_or, Bool.false_eq_true]
    omega

/-- With enough levels a traversal is one level over visits. -/
theorem Coherent.traverseTo_eq (hS : S.Coherent) {n : Nat} {v : Value}
    (h : S.levelsBelow p v ≤ n) : S.traverseTo n p v = S.visitLevel S.visit p v := by
  induction n generalizing p v with
  | zero =>
    -- there is always one level at least
    unfold levelsBelow at h
    split at h
    · omega
    · omega
  | succ n ih =>
    apply hS.visitLevel_congr
    intro q u hq
    -- the level below need not be entered, and is one level over visits all the same
    have hlt := hS.levelsBelow_lt hq
    rw [ih (by omega), ← hS.visit_eq_visitLevel hq.ne_root]

theorem Coherent.traverse_eq_visitLevel (hS : S.Coherent) (p : Path) (v : Value) :
    S.traverse p v = S.visitLevel S.visit p v :=
  hS.traverseTo_eq (levelsBelow_le S p v)

/-! ## Traversals and visits -/

/-- A traversal enters whatever it comes to: it is one level over traversals, at every path. -/
theorem Coherent.traverse_eq (hS : S.Coherent) (p : Path) (v : Value) :
    S.traverse p v = S.visitLevel S.traverse p v := by
  rw [hS.traverse_eq_visitLevel]
  apply hS.visitLevel_congr
  intro q u hq
  rw [hS.traverse_eq_visitLevel, ← hS.visit_eq_visitLevel hq.ne_root]

/-- A visit is a traversal, and a traversal leaves alone what is not entered. -/
theorem visit_eq_traverse {c : Config} {S : Schema} (h : compile c = .ok S) :
    (∀ p v, S.traverse p v = S.visitLevel S.traverse p v) ∧
      (∀ p v, p ≠ .root → S.visit p v = S.traverse p v) ∧
      ∀ p v, p ≠ .root → S.visits p = false → S.traverse p v = v := by
  have hS := coherent_of_compile h
  have hvisit : ∀ p v, p ≠ .root → S.visit p v = S.traverse p v := by
    intro p v hroot
    rw [hS.traverse_eq_visitLevel, ← hS.visit_eq_visitLevel hroot]
  refine ⟨hS.traverse_eq, hvisit, ?_⟩
  intro p v hroot hp
  rw [← hvisit p v hroot, visit_of_not_visits hp]

theorem visit_eq_traverse_nested_default :
    let c : Config := ⟨[⟨"$.a.k", some .json, some (.object []), none⟩,
      ⟨"$.a.k.m", some .boolean, some (.bool true), none⟩], [], []⟩
    let a := Path.field "a"
    let S : Schema := ⟨[a, a.key "k", (a.key "k").key "m"],
      [(a, [(a.key "k", ⟨a, .name "k", some .json, some (.object []), none⟩)]),
        (a.key "k", [((a.key "k").key "m", ⟨a.key "k", .name "m", some .boolean, some (.bool true), none⟩)])],
      [], []⟩
    let v : Value := .object [("z", .array [.null])]
    compile c = .ok S ∧ a ≠ .root ∧ S.visit a v = .object [("k", .object [("m", .bool true)])] ∧
      S.visit a v = S.traverse a v ∧ a.key "z" ≠ .root ∧ S.visits (a.key "z") = false ∧
      S.traverse (a.key "z") v = v := by
  intro c a S v
  have h : compile c = .ok S := by cbv
  have ha : a ≠ .root := by decide
  have hz : a.key "z" ≠ .root := by decide
  have hnot : S.visits (a.key "z") = false := by cbv
  rcases visit_eq_traverse h with ⟨_, hvisit, hleft⟩
  exact ⟨h, ha, by cbv, hvisit a v ha, hz, hnot, hleft _ v hz hnot⟩

end RecordFilter.Schema
