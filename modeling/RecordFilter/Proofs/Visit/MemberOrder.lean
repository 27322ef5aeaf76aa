import RecordFilter.Proofs.Visit.Members

namespace RecordFilter.Schema

/-! # The order of members does not matter

Members are looked up by their keys, so a visit finds the same in whatever order they stand. What it makes of two values
that are the same up to that order is the same up to that order: it carries over from the levels below to a level
(`Coherent.visitLevel_sameUpToOrder`), since both results have the same keys and, under each of them, what one directive
writes or what is passed on. Members that are passed on stand in the order of the input. Those that directives write
stand in the order of the directives, so where columns are kept even the order is the same (`visit_sameUpToOrder`).
-/

open Json (Value)

variable {S : Schema} {f : Path → Value → Value} {p : Path}

/-- The levels below make the same, up to the order of members, of what is the same up to it. -/
def OrderFreeBelow (f : Path → Value → Value) (v : Value) : Prop :=
  ∀ q, ∀ u ∈ v.children, ∀ w, u.SameUpToOrder w → (f q u).SameUpToOrder (f q w)

/-! ## Arrays -/

/-- Items keep their places, so directives find items at the same places. -/
theorem Coherent.visitItems_sameUpToOrder (hS : S.Coherent) {xs ys : List Value}
    (hbelow : OrderFreeBelow f (.array xs)) (hlength : xs.length = ys.length)
    (heach : ∀ (i : Nat) u w, xs[i]? = some u → ys[i]? = some w → u.SameUpToOrder w) :
    List.Forall₂ Value.SameUpToOrder (S.visitItems f p xs) (S.visitItems f p ys) := by
  apply hS.visitItems_rel .same ?found ?read (fun _ => hlength) ?passed
  case found =>
    intro d _
    unfold Directive.findItem?
    cases d.sourceBase.index? with
    | none => rfl
    | some i =>
      show xs[i]? = none ↔ ys[i]? = none
      rw [List.getElem?_eq_none_iff, List.getElem?_eq_none_iff, hlength]
  case read =>
    intro d _ u w hu hw
    obtain ⟨i, hi, hxs⟩ := Option.bind_eq_some_iff.1 hu
    obtain ⟨j, hj, hys⟩ := Option.bind_eq_some_iff.1 hw
    cases hi.symm.trans hj
    exact hbelow d.path u (List.mem_of_getElem? hxs) w (heach i u w hxs hys)
  case passed =>
    intro _ i u w hu hw _
    exact hbelow _ u (List.mem_of_getElem? hu) w (heach i u w hu hw)

/-! ## Objects -/

section Members

variable {ms ns : List (String × Value)} (hbelow : OrderFreeBelow f (.object ms))
  (hkeys : (Dictionary.keys ms).Perm (Dictionary.keys ns))
  (heach : ∀ k u w, (k, u) ∈ ms → (k, w) ∈ ns → u.SameUpToOrder w)
include hkeys

/-- The keys that are kept or passed on are the same up to order. -/
theorem keys_baseMembers_perm :
    (Dictionary.keys (S.baseMembers f p ms)).Perm (Dictionary.keys (S.baseMembers f p ns)) := by
  cases hkeep : S.keepAt p with
  | some kept => rw [keys_baseMembers_of_keepAt hkeep, keys_baseMembers_of_keepAt hkeep]
  | none =>
    rw [baseMembers_of_keepAt_eq_none hkeep, baseMembers_of_keepAt_eq_none hkeep, keys_passMembers, keys_passMembers]
    exact hkeys.filter _

include hbelow heach

theorem write_findMember?_sameUpToOrder (d : Directive) :
    (d.write f (d.findMember? ms)).SameUpToOrder (d.write f (d.findMember? ns)) := by
  apply Directive.write_rel ?none ?some (fun _ _ => .same _) (.same _)
  case none =>
    rw [Directive.findMember?, Directive.findMember?, Dictionary.find?_eq_none_iff, Dictionary.find?_eq_none_iff,
      hkeys.mem_iff]
  case some =>
    intro u w hu hw
    have huw := heach _ u w (Dictionary.mem_of_find? hu) (Dictionary.mem_of_find? hw)
    exact hbelow d.path u (Directive.mem_of_findMember? hu) w huw

/-- What is kept or passed on under a key is the same up to order. -/
theorem find?_baseMembers_sameUpToOrder {k : String} {u w : Value}
    (hu : Dictionary.find? k (S.baseMembers f p ms) = some u)
    (hw : Dictionary.find? k (S.baseMembers f p ns) = some w) : u.SameUpToOrder w := by
  cases hkeep : S.keepAt p with
  | some kept =>
    -- both times the directive that writes the key last has written it
    rw [find?_baseMembers_of_keepAt hkeep] at hu hw
    obtain ⟨d, hd, rfl⟩ := Option.map_eq_some_iff.1 hu
    rw [hd] at hw
    cases hw
    exact write_findMember?_sameUpToOrder hbelow hkeys heach d
  | none =>
    rw [baseMembers_of_keepAt_eq_none hkeep, find?_passMembers] at hu hw
    split at hu
    · cases hu
    · next hdrop =>
      rw [if_neg hdrop] at hw
      obtain ⟨u', hu', rfl⟩ := Option.map_eq_some_iff.1 hu
      obtain ⟨w', hw', rfl⟩ := Option.map_eq_some_iff.1 hw
      have hmem := Dictionary.mem_of_find? hu'
      exact hbelow _ u' (List.mem_map.2 ⟨_, hmem, rfl⟩) w' (heach k u' w' hmem (Dictionary.mem_of_find? hw'))

theorem Coherent.visitMembers_sameUpToOrder (hS : S.Coherent) (hnodup : (Dictionary.keys ms).Nodup) :
    Value.SameUpToOrder (.object (S.visitMembers f p ms)) (.object (S.visitMembers f p ns)) := by
  have hnodup' : (Dictionary.keys ns).Nodup := hkeys.nodup_iff.1 hnodup
  refine .object ?keys ?each
  case keys =>
    rw [hS.keys_visitMembers hnodup, hS.keys_visitMembers hnodup']
    exact ((keys_baseMembers_perm hkeys).filter _).append_right _
  case each =>
    intro k u w hu hw
    have hfind := (Dictionary.find?_eq_some_iff (hS.nodup_keys_visitMembers hnodup)).2 hu
    have hfind' := (Dictionary.find?_eq_some_iff (hS.nodup_keys_visitMembers hnodup')).2 hw
    rw [hS.find?_visitMembers] at hfind hfind'
    cases hlast : lastWriting k (S.addAt p) with
    | some d =>
      -- the key is added, both times by one directive
      rw [hlast] at hfind hfind'
      cases hfind
      cases hfind'
      exact write_findMember?_sameUpToOrder hbelow hkeys heach d
    | none =>
      rw [hlast] at hfind hfind'
      exact find?_baseMembers_sameUpToOrder hbelow hkeys heach hfind hfind'

end Members

/-! ## Visits -/

/-- What is the same up to the order of members stays so in a level, if it does in the levels below. -/
theorem Coherent.visitLevel_sameUpToOrder (hS : S.Coherent) {v w : Value} (hbelow : OrderFreeBelow f v)
    (hv : v.Distinct) (hvw : v.SameUpToOrder w) : (S.visitLevel f p v).SameUpToOrder (S.visitLevel f p w) := by
  cases hvw with
  | same => exact .same _
  | array hlength heach =>
    rw [visitLevel_array, visitLevel_array]
    exact Value.sameUpToOrder_array (hS.visitItems_sameUpToOrder hbelow hlength heach)
  | object hkeys heach =>
    exact hS.visitMembers_sameUpToOrder hbelow hkeys heach (Value.distinct_object.1 hv).1

theorem Coherent.visitTo_sameUpToOrder (hS : S.Coherent) {n : Nat} {v w : Value} (hv : v.Distinct)
    (hvw : v.SameUpToOrder w) : (S.visitTo n p v).SameUpToOrder (S.visitTo n p w) := by
  induction n generalizing p v w with
  | zero => exact hvw
  | succ n ih =>
    unfold visitTo
    split
    · apply hS.visitLevel_sameUpToOrder ?_ hv hvw
      intro q u hu w huw
      exact ih (hv.child hu) huw
    · exact hvw

/-- Values that are the same up to the order of members are visited and rewritten to values that are. Of two objects the
results have their keys in one order where columns are kept. -/
theorem visit_sameUpToOrder {c : Config} {S : Schema} (h : compile c = .ok S) (p : Path) {v w : Value}
    (hv : v.Distinct) (hvw : v.SameUpToOrder w) :
    (S.visit p v).SameUpToOrder (S.visit p w) ∧ (S.rewrite p v).SameUpToOrder (S.rewrite p w) ∧
      ∀ ms ns, v = .object ms → w = .object ns → S.visits p → S.keepAt p ≠ none →
        ∃ ms' ns', S.visit p v = .object ms' ∧ S.visit p w = .object ns' ∧ S.rewrite p v = .object ms' ∧
          S.rewrite p w = .object ns' ∧ Dictionary.keys ms' = Dictionary.keys ns' := by
  have hS := coherent_of_compile h
  have hw : w.Distinct := hvw.distinct hv
  have hvisit : (S.visit p v).SameUpToOrder (S.visit p w) := hS.visitTo_sameUpToOrder hv hvw
  rw [rewrite_eq_visit hv, rewrite_eq_visit hw]
  refine ⟨hvisit, hvisit, ?_⟩
  rintro ms ns rfl rfl hp hkeep
  obtain ⟨kept, hkept⟩ := Option.ne_none_iff_exists'.1 hkeep
  have hms := hS.visit_object hp ms
  have hns := hS.visit_object hp ns
  refine ⟨_, _, hms, hns, hms, hns, ?_⟩
  rw [hS.keys_visitMembers (Value.distinct_object.1 hv).1, hS.keys_visitMembers (Value.distinct_object.1 hw).1,
    keys_baseMembers_of_keepAt hkept, keys_baseMembers_of_keepAt hkept]

/-- One member is kept under two keys, and it is itself in another order the second time; a third key has a default. -/
theorem visit_sameUpToOrder_shared_source :
    let copied (name source : String) : Column := ⟨name, none, none, some source⟩
    let c : Config := ⟨[copied "$.a.k" "$.a.s", ⟨"$.a.n", some .boolean, some (.bool true), none⟩,
      copied "$.a.m" "$.a.s"], [copied "$.a.t" "$.a.z"], []⟩
    let a := Path.field "a"
    let taken (name source : String) : Path × Directive :=
      (a.key name, ⟨a, .name name, none, none, some (a.key source)⟩)
    let S : Schema := ⟨[a, a.key "k", a.key "n", a.key "m", a.key "t"],
      [(a, [taken "k" "s", (a.key "n", ⟨a, .name "n", some .boolean, some (.bool true), none⟩), taken "m" "s"])],
      [(a, [taken "t" "z"])], []⟩
    let v : Value := .object [("s", .object [("x", .null), ("y", .bool true)]), ("z", .string "z")]
    let w : Value := .object [("z", .string "z"), ("s", .object [("y", .bool true), ("x", .null)])]
    compile c = .ok S ∧ v.Distinct ∧ v.SameUpToOrder w ∧ S.visits a ∧ S.keepAt a ≠ none ∧
      S.rewrite a w = .object [("k", .object [("y", .bool true), ("x", .null)]), ("n", .bool true),
        ("m", .object [("y", .bool true), ("x", .null)]), ("t", .string "z")] ∧
      (S.visit a v).SameUpToOrder (S.visit a w) ∧ (S.rewrite a v).SameUpToOrder (S.rewrite a w) ∧
      ∃ ms ns, S.rewrite a v = .object ms ∧ S.rewrite a w = .object ns ∧ Dictionary.keys ms = Dictionary.keys ns := by
  intro copied c a taken S v w
  have h : compile c = .ok S := by cbv
  have hv : v.Distinct := by simp [v, Dictionary.keys]
  have hinner : Value.SameUpToOrder (.object [("x", .null), ("y", .bool true)])
      (.object [("y", .bool true), ("x", .null)]) :=
    Value.sameUpToOrder_of_perm (List.Perm.swap _ _ _) (by decide)
  have hvw : v.SameUpToOrder w := by
    refine .object (List.Perm.swap _ _ _) ?_
    intro k u w hu hw
    have hk : k = "s" ∧ u = .object [("x", .null), ("y", .bool true)] ∨ k = "z" ∧ u = .string "z" := by simpa using hu
    rcases hk with ⟨rfl, rfl⟩ | ⟨rfl, rfl⟩
    · obtain rfl : w = .object [("y", .bool true), ("x", .null)] := by simpa using hw
      exact hinner
    · obtain rfl : w = .string "z" := by simpa using hw
      exact .same _
  have hp : S.visits a := by cbv
  have hkeep : S.keepAt a ≠ none := by
    have hkept : S.keepAt a = some [(taken "k" "s").2, ⟨a, .name "n", some .boolean, some (.bool true), none⟩,
      (taken "m" "s").2] := by cbv
    simp [hkept]
  obtain ⟨hvisit, hrewrite, hkept⟩ := visit_sameUpToOrder h a hv hvw
  obtain ⟨ms, ns, _, _, hms, hns, hkeys⟩ := hkept _ _ rfl rfl hp hkeep
  exact ⟨h, hv, hvw, hp, hkeep, by cbv, hvisit, hrewrite, ms, ns, hms, hns, hkeys⟩

end RecordFilter.Schema
