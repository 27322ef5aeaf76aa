import RecordFilter.Proofs.Visit.Members

namespace RecordFilter

/-! # A default is as good as a member

An object that misses what a directive reads is visited as if the default stood in it, at whatever place. Both times
directives write the same (`writeMembers_insert`): the directive with the default is given the default either way, and no
other one reads that key. Where columns are kept there is nothing else to see. Elsewhere the member that was put in is
passed on or dropped like any other, but a directive with a default writes where it reads (`sourceBase_eq_base`), so in
front of what is added its key is taken out again.
-/

open Json (Value)

namespace Schema

variable {c : Config} {S : Schema} {f : Path → Value → Value} {p : Path} {d : Directive} {v : Value}
  {front back : List (String × Value)}

/-- A directive with a default has no source of its own, so it reads where it writes. -/
theorem sourceBase_eq_base (h : compile c = .ok S) (hd : d ∈ S.directivesAt p) (hv : d.default = some v) :
    d.sourceBase = d.base := by
  obtain ⟨role, e, _, hdirective⟩ := exists_ofColumn_of_mem_directivesAt h hd
  rcases Directive.cases_of_ofColumn hdirective with ⟨_, _, _, _, _, _, hnone⟩ | ⟨_, _, _, hsource, _⟩ | ⟨hsource, _⟩
  · rw [hnone] at hv
    cases hv
  · exact Directive.sourceBase_of_ofColumn hdirective hsource
  · exact Directive.sourceBase_of_ofColumn hdirective hsource

/-! ## What directives write -/

section Members

variable (hkey : d.sourceBase.key ∉ Dictionary.keys (front ++ back)) (hv : d.default = some v)
include hkey hv

/-- The directive with the default is given the default, from the object or in place of what is missing. -/
theorem write_insert_self :
    d.write f (d.findMember? (front ++ (d.sourceBase.key, v) :: back)) =
      d.write f (d.findMember? (front ++ back)) := by
  have hmissing : d.findMember? (front ++ back) = none := Dictionary.find?_eq_none_iff.2 hkey
  have hfront : Dictionary.find? d.sourceBase.key front = none := by
    apply Dictionary.find?_eq_none_iff.2
    intro hmem
    exact hkey (by simpa [Dictionary.keys] using Or.inl hmem)
  have hfound : d.findMember? (front ++ (d.sourceBase.key, v) :: back) = some v := by
    rw [Directive.findMember?, Dictionary.find?_append, hfront]
    simp [Dictionary.find?]
  rw [hmissing, hfound, Directive.write_of_default hv, Directive.write_of_default hv]
  rfl

/-- Directives write the same, if the one with the default is the only one that reads its key. -/
theorem writeMembers_insert {ds : List Directive} (honly : ∀ e ∈ ds, e.sourceBase.key = d.sourceBase.key → e = d) :
    writeMembers f ds (front ++ (d.sourceBase.key, v) :: back) = writeMembers f ds (front ++ back) := by
  apply List.map_congr_left
  intro e he
  by_cases hread : e.sourceBase.key = d.sourceBase.key
  · rw [honly e he hread, write_insert_self hkey hv]
  · have hother : e.findMember? (front ++ (d.sourceBase.key, v) :: back) = e.findMember? (front ++ back) := by
      rw [Directive.findMember?, Directive.findMember?, Dictionary.find?_append, Dictionary.find?_append,
        Dictionary.find?, if_neg fun h => hread h.symm]
    rw [hother]

end Members

/-! ## What is passed on -/

/-- A member under a key that is added leaves nothing in front of what is added. -/
theorem untouched_passMembers_insert {k : String} (hk : k ∈ S.addedKeys p) (dropped : List Path) (v : Value) :
    S.untouched p (passMembers f p dropped (front ++ (k, v) :: back)) =
      S.untouched p (passMembers f p dropped (front ++ back)) := by
  have hadded : (!(S.addedKeys p).contains k) = false := by simp [hk]
  rw [untouched, untouched, ← passMembers_filter fun k => !(S.addedKeys p).contains k,
    ← passMembers_filter fun k => !(S.addedKeys p).contains k, List.filter_append, List.filter_append,
    List.filter_cons_of_neg (by simp only [hadded, Bool.false_eq_true, not_false_eq_true])]

/-- A level makes the same of an object with the default and without it. -/
theorem visitMembers_insert (h : compile c = .ok S) (hd : d ∈ S.directivesAt p) (hv : d.default = some v)
    (hnodup : (Dictionary.keys (front ++ (d.sourceBase.key, v) :: back)).Nodup)
    (honly : ∀ e ∈ S.directivesAt p, e.sourceBase.key = d.sourceBase.key → e = d) :
    S.visitMembers f p (front ++ (d.sourceBase.key, v) :: back) = S.visitMembers f p (front ++ back) := by
  have hS := coherent_of_compile h
  have hcons : (d.sourceBase.key :: Dictionary.keys (front ++ back)).Nodup := by
    have hperm : (Dictionary.keys (front ++ (d.sourceBase.key, v) :: back)).Perm
        (d.sourceBase.key :: Dictionary.keys (front ++ back)) := List.perm_middle.map Prod.fst
    exact hperm.nodup_iff.1 hnodup
  obtain ⟨hkey, hrest⟩ := List.nodup_cons.1 hcons
  have hadd : writeMembers f (S.addAt p) (front ++ (d.sourceBase.key, v) :: back) =
      writeMembers f (S.addAt p) (front ++ back) :=
    writeMembers_insert hkey hv fun e he => honly e (mem_directivesAt_of_addAt he)
  cases hkeep : S.keepAt p with
  | some kept =>
    have hwrite : writeMembers f kept (front ++ (d.sourceBase.key, v) :: back) =
        writeMembers f kept (front ++ back) :=
      writeMembers_insert hkey hv fun e he => honly e (mem_directivesAt_of_keepAt hkeep he)
    rw [hS.visitMembers_of_keepAt hkeep, hS.visitMembers_of_keepAt hkeep, hwrite, hadd]
  | none =>
    -- nothing is kept, so the directive is one that adds, under the key that it reads
    have hadded : d.sourceBase.key ∈ S.addedKeys p := by
      have hmem : d ∈ S.addAt p := by simpa [directivesAt, hkeep] using hd
      rw [sourceBase_eq_base h hd hv]
      exact List.mem_map.2 ⟨d, hmem, rfl⟩
    rw [hS.visitMembers_eq_untouched_append hnodup, hS.visitMembers_eq_untouched_append hrest,
      baseMembers_of_keepAt_eq_none hkeep, baseMembers_of_keepAt_eq_none hkeep, untouched_passMembers_insert hadded,
      hadd]

/-- A default behaves as if it had been in the object: what is made of the object is the same, down to the order of
members, if the default is put in under the key that its directive reads, wherever it is put in. The directive has to be
the only one that reads this key. -/
theorem visit_insert_default {c : Config} {S : Schema} (h : compile c = .ok S) {p : Path} (hp : S.visits p)
    {d : Directive} (hd : d ∈ S.directivesAt p) {v : Value} (hv : d.default = some v)
    {front back : List (String × Value)} (hdistinct : (Value.object (front ++ (d.sourceBase.key, v) :: back)).Distinct)
    (honly : ∀ e ∈ S.directivesAt p, e.sourceBase.key = d.sourceBase.key → e = d) :
    S.visit p (.object (front ++ (d.sourceBase.key, v) :: back)) = S.visit p (.object (front ++ back)) ∧
      S.rewrite p (.object (front ++ (d.sourceBase.key, v) :: back)) = S.rewrite p (.object (front ++ back)) := by
  obtain ⟨hnodup, heach⟩ := Value.distinct_object.1 hdistinct
  have hsublist : (front ++ back).Sublist (front ++ (d.sourceBase.key, v) :: back) :=
    (List.sublist_cons_self _ _).append_left front
  have hless : (Value.object (front ++ back)).Distinct :=
    .object ((hsublist.map Prod.fst).nodup hnodup) fun e he => heach e (hsublist.subset he)
  have hvisit : S.visit p (.object (front ++ (d.sourceBase.key, v) :: back)) = S.visit p (.object (front ++ back)) := by
    rw [(coherent_of_compile h).visit_object hp, (coherent_of_compile h).visit_object hp,
      visitMembers_insert h hd hv hnodup honly]
  refine ⟨hvisit, ?_⟩
  rw [rewrite_eq_visit hdistinct, rewrite_eq_visit hless, hvisit]

/-- The default of an item is added under its position as a key. If it had been in the object it would be passed on at the
path of that key, where something else is dropped from it, and taken out again. -/
theorem visit_insert_default_position :
    let c : Config := ⟨[], [⟨"$.a[0]", some .json, some (.object [("x", .null)]), none⟩,
        ⟨"$.a[0].y", some .boolean, some (.bool true), none⟩],
      [⟨"$.a.0.x", none, none, none⟩, ⟨"$.a.s", none, none, none⟩]⟩
    let a := Path.field "a"
    let v : Value := .object [("x", .null)]
    let d : Directive := ⟨a, .index 0, some .json, some v, none⟩
    let y : Directive := ⟨a.index 0, .name "y", some .boolean, some (.bool true), none⟩
    let S : Schema := ⟨[a, a.index 0, (a.index 0).key "y", a.key "0", (a.key "0").key "x", a.key "s"], [],
      [(a, [(d.path, d)]), (a.index 0, [(y.path, y)])],
      [(a.key "0", [(a.key "0").key "x"]), (a, [a.key "s"])]⟩
    let front := [("s", Value.null)]
    let back := [("z", Value.string "z")]
    let result : Value := .object [("z", .string "z"), ("0", .object [("x", .null), ("y", .bool true)])]
    compile c = .ok S ∧ S.visits a ∧ d ∈ S.directivesAt a ∧ d.default = some v ∧ d.sourceBase.key = "0" ∧
      (Value.object (front ++ (d.sourceBase.key, v) :: back)).Distinct ∧
      (∀ e ∈ S.directivesAt a, e.sourceBase.key = d.sourceBase.key → e = d) ∧
      S.visit (a.key "0") v = .object [] ∧
      S.visit a (.object (front ++ back)) = result ∧ S.rewrite a (.object (front ++ back)) = result ∧
      S.visit a (.object [("s", .null), ("0", v), ("z", .string "z")]) = result ∧
      S.rewrite a (.object [("s", .null), ("0", v), ("z", .string "z")]) = result := by
  intro c a v d y S front back result
  have h : compile c = .ok S := by cbv
  have hp : S.visits a := by cbv
  have hds : S.directivesAt a = [d] := by cbv
  have hd : d ∈ S.directivesAt a := by simp [hds]
  have hkey : d.sourceBase.key = "0" := by decide
  have hdistinct : (Value.object (front ++ (d.sourceBase.key, v) :: back)).Distinct := by
    rw [hkey]
    simp [front, back, v, Dictionary.keys]
  have honly : ∀ e ∈ S.directivesAt a, e.sourceBase.key = d.sourceBase.key → e = d := by simp [hds]
  have hvisit : S.visit a (.object (front ++ back)) = result := by cbv
  have hrewrite : S.rewrite a (.object (front ++ back)) = result := by cbv
  obtain ⟨hvisit', hrewrite'⟩ := visit_insert_default h hp hd rfl hdistinct honly
  rw [hkey, hvisit] at hvisit'
  rw [hkey, hrewrite] at hrewrite'
  exact ⟨h, hp, hd, rfl, hkey, hdistinct, honly, by cbv, hvisit, hrewrite, hvisit', hrewrite'⟩

end Schema

end RecordFilter
