import RecordFilter.Proofs.Visit.Ownership

namespace RecordFilter.Schema

/-! # What is not kept does not leak

Two values are indistinguishable at a path if they differ only in what a visit does not look at: in members that no
directive reads where columns are kept, and in dropped children that no added column reads. Indistinguishable values
are rewritten alike, so nothing of what they differ in can be seen in the result.
-/

open Json (Value)

/-- Values that a visit at a path cannot tell apart. What a directive reads is compared at the path of the directive, where
it is visited, and what is passed on at its own. -/
inductive Indistinguishable (S : Schema) : Path → Value → Value → Prop where
  | same (p : Path) (v : Value) : Indistinguishable S p v v
  | array {p : Path} {xs ys : List Value} (entered : S.visits p)
      (found : ∀ d ∈ S.directivesAt p, d.findItem? xs = none ↔ d.findItem? ys = none)
      (read : ∀ d ∈ S.directivesAt p, ∀ u w, d.findItem? xs = some u → d.findItem? ys = some w →
        Indistinguishable S d.path u w)
      (length : S.keepAt p = none → xs.length = ys.length)
      (passed : S.keepAt p = none → ∀ (i : Nat) u w, xs[i]? = some u → ys[i]? = some w →
        dropsItem p ((S.dropAt p).getD []) i = false → Indistinguishable S (S.itemPath p i) u w) :
      Indistinguishable S p (.array xs) (.array ys)
  | object {p : Path} {ms ns : List (String × Value)} (entered : S.visits p)
      (found : ∀ d ∈ S.directivesAt p, d.findMember? ms = none ↔ d.findMember? ns = none)
      (read : ∀ d ∈ S.directivesAt p, ∀ u w, d.findMember? ms = some u → d.findMember? ns = some w →
        Indistinguishable S d.path u w)
      (keys : S.keepAt p = none → Dictionary.keys ms = Dictionary.keys ns)
      (passed : S.keepAt p = none → ∀ (i : Nat) k u w, ms[i]? = some (k, u) → ns[i]? = some (k, w) →
        ((S.dropAt p).getD []).contains (p.key k) = false → Indistinguishable S (p.key k) u w) :
      Indistinguishable S p (.object ms) (.object ns)

variable {S : Schema} {f : Path → Value → Value} {p : Path}

/-! ## Levels over two values -/

theorem writeMembers_eq_of_found {ds : List Directive} {ms ns : List (String × Value)}
    (hfound : ∀ d ∈ ds, d.findMember? ms = none ↔ d.findMember? ns = none)
    (hread : ∀ d ∈ ds, ∀ u w, d.findMember? ms = some u → d.findMember? ns = some w →
      f d.path u = f d.path w) : writeMembers f ds ms = writeMembers f ds ns := by
  apply List.map_congr_left
  intro d hd
  rw [Directive.write_congr (hfound d hd) (hread d hd) fun _ _ => rfl]

/-- Arrays are visited alike if their directives read what is treated alike, and so are the items passed on. -/
theorem Coherent.visitItems_eq (hS : S.Coherent) {xs ys : List Value}
    (hfound : ∀ d ∈ S.directivesAt p, d.findItem? xs = none ↔ d.findItem? ys = none)
    (hread : ∀ d ∈ S.directivesAt p, ∀ u w, d.findItem? xs = some u → d.findItem? ys = some w →
      f d.path u = f d.path w)
    (hlength : S.keepAt p = none → xs.length = ys.length)
    (hpassed : S.keepAt p = none → ∀ (i : Nat) u w, xs[i]? = some u → ys[i]? = some w →
      dropsItem p ((S.dropAt p).getD []) i = false → f (S.itemPath p i) u = f (S.itemPath p i) w) :
    S.visitItems f p xs = S.visitItems f p ys := by
  have hrel := hS.visitItems_rel (R := (· = ·)) (fun _ => rfl) hfound hread hlength hpassed
  rwa [List.forall₂_eq_eq_eq] at hrel

/-- Objects are visited alike if their directives read what is treated alike, and so are the members passed on. -/
theorem Coherent.visitMembers_eq (hS : S.Coherent) {ms ns : List (String × Value)}
    (hfound : ∀ d ∈ S.directivesAt p, d.findMember? ms = none ↔ d.findMember? ns = none)
    (hread : ∀ d ∈ S.directivesAt p, ∀ u w, d.findMember? ms = some u → d.findMember? ns = some w →
      f d.path u = f d.path w)
    (hkeys : S.keepAt p = none → Dictionary.keys ms = Dictionary.keys ns)
    (hpassed : S.keepAt p = none → ∀ (i : Nat) k u w, ms[i]? = some (k, u) → ns[i]? = some (k, w) →
      ((S.dropAt p).getD []).contains (p.key k) = false → f (p.key k) u = f (p.key k) w) :
    S.visitMembers f p ms = S.visitMembers f p ns := by
  have hadd : writeMembers f (S.addAt p) ms = writeMembers f (S.addAt p) ns :=
    writeMembers_eq_of_found (fun d hd => hfound d (mem_directivesAt_of_addAt hd))
      fun d hd => hread d (mem_directivesAt_of_addAt hd)
  cases hkeep : S.keepAt p with
  | some kept =>
    -- no member is passed on, so what the directives read is all that is seen
    have hwrite : writeMembers f kept ms = writeMembers f kept ns :=
      writeMembers_eq_of_found (fun d hd => hfound d (mem_directivesAt_of_keepAt hkeep hd))
        fun d hd => hread d (mem_directivesAt_of_keepAt hkeep hd)
    rw [hS.visitMembers_of_keepAt hkeep, hS.visitMembers_of_keepAt hkeep, hwrite, hadd]
  | none =>
    have hpass : passMembers f p ((S.dropAt p).getD []) ms = passMembers f p ((S.dropAt p).getD []) ns :=
      passMembers_congr (fun _ => rfl) (hkeys hkeep) (hpassed hkeep)
    rw [visitMembers_of_keepAt_eq_none hkeep, visitMembers_of_keepAt_eq_none hkeep, hpass, hadd]

/-! ## Visits of two values -/

/-- Indistinguishable values are visited alike. -/
theorem Coherent.visit_eq_of_indistinguishable (hS : S.Coherent) {v w : Value}
    (h : S.Indistinguishable p v w) : S.visit p v = S.visit p w := by
  -- each step of the relation is one level, and its premises are about the levels below
  induction h with
  | same p v => rfl
  | array entered found _ length _ read passed =>
    rw [hS.visit_array entered, hS.visit_array entered, hS.visitItems_eq found read length passed]
  | object entered found _ keys _ read passed =>
    rw [hS.visit_object entered, hS.visit_object entered, hS.visitMembers_eq found read keys passed]

/-- Indistinguishable values are visited and rewritten alike. -/
theorem visit_rewrite_eq_of_indistinguishable {c : Config} {S : Schema} (h : compile c = .ok S)
    {p : Path} {v w : Value} (hvw : S.Indistinguishable p v w) (hv : v.Distinct)
    (hw : w.Distinct) : S.visit p v = S.visit p w ∧ S.rewrite p v = S.rewrite p w := by
  have hvisit := (coherent_of_compile h).visit_eq_of_indistinguishable hvw
  refine ⟨hvisit, ?_⟩
  rw [rewrite_eq_visit hv, rewrite_eq_visit hw, hvisit]

/-- Members that no column names are not seen, neither next to a kept member nor inside it. -/
theorem visit_rewrite_eq_of_indistinguishable_hidden :
    let c : Config := ⟨[⟨"$.a.k", none, none, none⟩, ⟨"$.a.k.m", none, none, none⟩],
      [⟨"$.a.c", none, none, some "$.a.t"⟩], []⟩
    let a := Path.field "a"
    let k : Directive := ⟨a, .name "k", none, none, none⟩
    let m : Directive := ⟨a.key "k", .name "m", none, none, none⟩
    let copied : Directive := ⟨a, .name "c", none, none, some (a.key "t")⟩
    let S : Schema := ⟨[a, a.key "k", (a.key "k").key "m", a.key "c"],
      [(a, [(k.path, k)]), (a.key "k", [(m.path, m)])], [(a, [(copied.path, copied)])], []⟩
    let v : Value :=
      .object [("hidden", .null), ("k", .object [("m", .null), ("inner", .bool true)]), ("t", .string "t")]
    let w : Value := .object [("t", .string "t"), ("k", .object [("m", .null)])]
    compile c = .ok S ∧ S.Indistinguishable a v w ∧ v.Distinct ∧ w.Distinct ∧
      S.visit a v = .object [("k", .object [("m", .null)]), ("c", .string "t")] ∧
      S.visit a v = S.visit a w ∧ S.rewrite a v = S.rewrite a w := by
  intro c a k m copied S v w
  have h : compile c = .ok S := by cbv
  have hinner : S.Indistinguishable k.path (.object [("m", .null), ("inner", .bool true)])
      (.object [("m", .null)]) := by
    have hds : S.directivesAt k.path = [m] := by cbv
    have hkeep : S.keepAt k.path = some [m] := by cbv
    apply Indistinguishable.object
    · cbv
    · rw [hds]
      simp [m, Directive.findMember?, Directive.sourceBase, Segment.key, Dictionary.find?]
    · rw [hds]
      intro d hd u u' hu hu'
      rw [List.mem_singleton.1 hd] at hu hu'
      cases hu
      cases hu'
      exact .same _ _
    · intro hnone
      cases hkeep.symm.trans hnone
    · intro hnone
      cases hkeep.symm.trans hnone
  have hvw : S.Indistinguishable a v w := by
    have hds : S.directivesAt a = [k, copied] := by cbv
    have hkeep : S.keepAt a = some [k] := by cbv
    apply Indistinguishable.object
    · cbv
    · rw [hds]
      simp [k, copied, Directive.findMember?, Directive.sourceBase, Path.key, Segment.key, Dictionary.find?]
    · rw [hds]
      intro d hd u u' hu hu'
      have hor : d = k ∨ d = copied := by simpa using hd
      rcases hor with rfl | rfl
      · cases hu
        cases hu'
        exact hinner
      · cases hu
        cases hu'
        exact .same _ _
    · intro hnone
      cases hkeep.symm.trans hnone
    · intro hnone
      cases hkeep.symm.trans hnone
  have hv : v.Distinct := by simp [v, Dictionary.keys]
  have hw : w.Distinct := by simp [w, Dictionary.keys]
  exact ⟨h, hvw, hv, hw, by cbv, visit_rewrite_eq_of_indistinguishable h hvw hv hw⟩

end RecordFilter.Schema
