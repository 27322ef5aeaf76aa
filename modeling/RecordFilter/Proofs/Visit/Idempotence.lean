import Mathlib.Data.List.Nodup
import RecordFilter.Proofs.Visit.Members
import RecordFilter.Proofs.Visit.Unindexed

namespace RecordFilter

/-! # Rewriting twice

Where no name has a position and nothing has a source, a directive writes a key and reads it where it writes it
(`WritesInPlace`). What a visit leaves is then a normal form: each directive finds what it wrote, and what was added
stands behind the rest already. Items are the exception. They have no keys, and what is added to an array is added
again.
-/

open Json (Value)

namespace Schema

variable {c : Config} {S : Schema} {f : Path → Value → Value} {p : Path}

/-! ## Writing in place -/

/-- Each directive below a path writes a key and reads it there, and no two of a list write the same. -/
structure WritesInPlace (S : Schema) (p : Path) : Prop where
  base_eq {d : Directive} : d ∈ S.directivesAt p → ∃ k, d.base = .name k
  source_eq {d : Directive} : d ∈ S.directivesAt p → d.sourceBase = d.base
  nodup_kept {kept : List Directive} : S.keepAt p = some kept → (kept.map fun d => d.base.key).Nodup
  nodup_added : ((S.addAt p).map fun d => d.base.key).Nodup

/-- Without positions, a directive writes a key. -/
theorem base_eq_of_unindexed (h : compile c = .ok S) (hc : c.Unindexed) {d : Directive} (hd : d ∈ S.directivesAt p) :
    ∃ k, d.base = .name k := by
  have hname : d.path ∈ c.names := (mem_names_of_mem_directivesAt h hd).2
  rcases exists_ofColumn_of_mem_directivesAt h hd with ⟨role, e, _, hdirective⟩
  -- a directive writes at one location, and its name has no positions
  have hwildcard : d.base ≠ .wildcard := (Directive.ne_wildcard_of_ofColumn hdirective).1
  have hlast : d.base ∈ d.path.segments := by simp [Directive.path, Path.segments]
  cases hbase : d.base with
  | name k => exact ⟨k, rfl⟩
  | index i => exact absurd (hbase ▸ hlast) (hc d.path hname i)
  | wildcard => exact absurd hbase hwildcard

/-- The directives of a table write under different keys, since their paths differ. -/
theorem nodup_keys_of_table (h : compile c = .ok S) (hc : c.Unindexed) {t : Directives}
    (ht : Dictionary.find? p S.keep = some t ∨ Dictionary.find? p S.add = some t)
    (hdirectives : ∀ d ∈ t.map Prod.snd, d ∈ S.directivesAt p) :
    ((t.map Prod.snd).map fun d => d.base.key).Nodup := by
  rcases table_of_compile h ht with ⟨hnodup, hpath⟩
  -- the path of each directive is its key below `p`
  have hmap : Dictionary.keys t = ((t.map Prod.snd).map fun d => d.base.key).map p.key := by
    rw [Dictionary.keys, List.map_map, List.map_map]
    apply List.map_congr_left
    intro e he
    rcases hpath e he with ⟨heq, hparent⟩
    rcases base_eq_of_unindexed h hc (hdirectives e.2 (List.mem_map.2 ⟨e, he, rfl⟩)) with ⟨k, hk⟩
    rw [heq, Directive.path, hparent, hk]
    simp [Path.key, hk, Segment.key]
  rw [hmap] at hnodup
  exact List.Nodup.of_map p.key hnodup

theorem writesInPlace_of_compile (h : compile c = .ok S) (hc : c.Unindexed)
    (hsource : ∀ e ∈ c.columns ++ c.addColumns, e.source = none) (p : Path) : S.WritesInPlace p where
  base_eq hd := base_eq_of_unindexed h hc hd
  source_eq hd := by
    rcases exists_ofColumn_of_mem_directivesAt h hd with ⟨role, e, he, hdirective⟩
    exact Directive.sourceBase_of_ofColumn hdirective (hsource e he)
  nodup_kept hkept := by
    rcases Option.map_eq_some_iff.1 hkept with ⟨t, ht, rfl⟩
    exact nodup_keys_of_table h hc (Or.inl ht) fun d hd => mem_directivesAt_of_keepAt hkept hd
  nodup_added := by
    cases hadd : Dictionary.find? p S.add with
    | none => simp [addAt, hadd]
    | some t =>
      have hadded : S.addAt p = t.map Prod.snd := by simp [addAt, hadd]
      rw [hadded]
      exact nodup_keys_of_table h hc (Or.inr hadd) fun d hd => mem_directivesAt_of_addAt (hadded ▸ hd)

/-! ## One level again

The levels below are taken to change nothing the second time, at what they are given the first time. -/

/-- The levels below change nothing the second time. -/
structure SettlesBelow (S : Schema) (f : Path → Value → Value) (p : Path) (v : Value) : Prop where
  null (q : Path) : f q .null = .null
  again {q : Path} {u : Value} : S.Reaches p v q u → f q (f q u) = f q u

/-- A directive that finds what it wrote writes it again. -/
theorem SettlesBelow.write_write {v : Value} (hf : S.SettlesBelow f p v) (hS : S.Coherent) {d : Directive}
    (hd : d ∈ S.directivesAt p) {found : Option Value} (hfound : ∀ u, found = some u → u ∈ v.children) :
    d.write f (some (d.write f found)) = d.write f found := by
  have hbelow : ∃ s, d.path = p.child s := ⟨_, hS.path_eq_child hd⟩
  cases found with
  | some u => exact hf.again ⟨hbelow, Or.inl (hfound u rfl)⟩
  | none =>
    cases hdefault : d.default with
    | some u =>
      have hagain := hf.again ⟨hbelow, Or.inr ⟨d, hd, rfl, hdefault⟩⟩
      simpa [Directive.write, hdefault] using hagain
    | none =>
      have hnull := hf.null d.path
      simpa [Directive.write, hdefault] using hnull

variable {members again : List (String × Value)}

/-- Directives write the same again where what they wrote stands. -/
theorem SettlesBelow.writeMembers_eq (hf : S.SettlesBelow f p (.object members)) (hS : S.Coherent)
    (hplace : S.WritesInPlace p) {ds : List Directive} (hds : ∀ d ∈ ds, d ∈ S.directivesAt p)
    (hnodup : (Dictionary.keys again).Nodup) (hwritten : ∀ e ∈ writeMembers f ds members, e ∈ again) :
    writeMembers f ds again = writeMembers f ds members := by
  apply List.map_congr_left
  intro d hd
  have hentry : (d.base.key, d.write f (d.findMember? members)) ∈ again :=
    hwritten _ (List.mem_map.2 ⟨d, hd, rfl⟩)
  -- it reads where it writes, and there is no other member under that key
  have hfind : d.findMember? again = some (d.write f (d.findMember? members)) := by
    rw [Directive.findMember?, hplace.source_eq (hds d hd)]
    exact (Dictionary.find?_eq_some_iff hnodup).2 hentry
  rw [hfind, hf.write_write hS (hds d hd) fun u hu => Directive.mem_of_findMember? hu]

theorem untouched_append (xs ys : List (String × Value)) :
    S.untouched p (xs ++ ys) = S.untouched p xs ++ S.untouched p ys :=
  List.filter_append xs ys

theorem untouched_writeMembers (ds : List Directive) (members : List (String × Value)) :
    S.untouched p (writeMembers f ds members) =
      writeMembers f (ds.filter fun d => !(S.addedKeys p).contains d.base.key) members :=
  (writeMembers_filter (fun k => !(S.addedKeys p).contains k) ds members).symm

theorem untouched_passMembers (dropped : List Path) (members : List (String × Value)) :
    S.untouched p (passMembers f p dropped members) = passMembers f p dropped (S.untouched p members) :=
  (passMembers_filter (fun k => !(S.addedKeys p).contains k) dropped members).symm

/-- The normal form: what is kept or passed on, and behind it what is added. -/
theorem WritesInPlace.visitMembers_eq (hplace : S.WritesInPlace p) (hS : S.Coherent)
    (hnodup : (Dictionary.keys members).Nodup) :
    S.visitMembers f p members =
      S.untouched p (S.baseMembers f p members) ++ writeMembers f (S.addAt p) members := by
  have hadded : (Dictionary.keys (writeMembers f (S.addAt p) members)).Nodup := by
    rw [keys_writeMembers_addAt]
    exact hplace.nodup_added
  rw [hS.visitMembers_eq_untouched_append hnodup, Dictionary.lasts_eq_self hadded]

/-- Of the normal form, what is not added is what was kept or passed on. -/
theorem WritesInPlace.untouched_visitMembers (hplace : S.WritesInPlace p) (hS : S.Coherent)
    (hnodup : (Dictionary.keys members).Nodup) :
    S.untouched p (S.visitMembers f p members) = S.untouched p (S.baseMembers f p members) := by
  -- what is added has the keys that are added
  have hadded : S.untouched p (writeMembers f (S.addAt p) members) = [] := by
    apply List.filter_eq_nil_iff.2
    rintro e he
    have hkey : e.1 ∈ S.addedKeys p := by
      rw [addedKeys, ← keys_writeMembers (f := f) _ members]
      exact List.mem_map.2 ⟨e, he, rfl⟩
    simpa using hkey
  have htwice : S.untouched p (S.untouched p (S.baseMembers f p members)) =
      S.untouched p (S.baseMembers f p members) := by
    simp [untouched]
  rw [hplace.visitMembers_eq hS hnodup, untouched_append, htwice, hadded, List.append_nil]

/-- Members that were passed on are passed on as they are. -/
theorem SettlesBelow.passMembers_again (hf : S.SettlesBelow f p (.object members)) (dropped : List Path)
    {passed : List (String × Value)} (hpassed : ∀ e ∈ passed, e ∈ members) :
    passMembers f p dropped (passMembers f p dropped passed) = passMembers f p dropped passed := by
  rw [passMembers_passMembers]
  apply passMembers_congr _ rfl
  · intro i k u w hu hw _
    cases hu.symm.trans hw
    have hmem : (k, u) ∈ members := hpassed _ (List.mem_of_getElem? hu)
    exact hf.again ⟨⟨.name k, rfl⟩, Or.inl (List.mem_map.2 ⟨(k, u), hmem, rfl⟩)⟩
  · intro k
    rw [List.contains_append, Bool.or_self]

/-- What is kept or passed on of a normal form is what there is of it already. -/
theorem SettlesBelow.untouched_baseMembers (hf : S.SettlesBelow f p (.object members)) (hS : S.Coherent)
    (hplace : S.WritesInPlace p) (hnodup : (Dictionary.keys again).Nodup)
    (hagain : S.untouched p again = S.untouched p (S.baseMembers f p members)) :
    S.untouched p (S.baseMembers f p again) = S.untouched p (S.baseMembers f p members) := by
  unfold baseMembers at hagain ⊢
  cases hkeep : S.keepAt p with
  | some kept =>
    -- no two directives write one key, so what they write is put in as it is
    have hself : ∀ ms, Dictionary.ofList (writeMembers f kept ms) = writeMembers f kept ms := by
      intro ms
      apply Dictionary.ofList_eq_self
      rw [keys_writeMembers]
      exact hplace.nodup_kept hkeep
    simp only [hkeep, hself, untouched_writeMembers] at hagain ⊢
    apply hf.writeMembers_eq hS hplace _ hnodup
    · intro e he
      rw [← hagain] at he
      exact (List.mem_filter.1 he).1
    · intro d hd
      exact mem_directivesAt_of_keepAt hkeep (List.mem_filter.1 hd).1
  | none =>
    simp only [hkeep] at hagain ⊢
    rw [untouched_passMembers, hagain, untouched_passMembers]
    exact hf.passMembers_again _ fun e he => (List.mem_filter.1 he).1

/-- An object that was visited is left as it is. -/
theorem SettlesBelow.visitMembers_visitMembers (hf : S.SettlesBelow f p (.object members)) (hS : S.Coherent)
    (hplace : S.WritesInPlace p) (hnodup : (Dictionary.keys members).Nodup) :
    S.visitMembers f p (S.visitMembers f p members) = S.visitMembers f p members := by
  have hkeys := hS.nodup_keys_visitMembers (f := f) (p := p) hnodup
  have hbase := hf.untouched_baseMembers hS hplace hkeys (hplace.untouched_visitMembers hS hnodup)
  have hadded : writeMembers f (S.addAt p) (S.visitMembers f p members) = writeMembers f (S.addAt p) members := by
    apply hf.writeMembers_eq hS hplace (fun d hd => mem_directivesAt_of_addAt hd) hkeys
    intro e he
    rw [hplace.visitMembers_eq hS hnodup]
    exact List.mem_append_right _ he
  calc S.visitMembers f p (S.visitMembers f p members)
      = S.untouched p (S.baseMembers f p (S.visitMembers f p members)) ++
          writeMembers f (S.addAt p) (S.visitMembers f p members) := hplace.visitMembers_eq hS hkeys
    _ = S.untouched p (S.baseMembers f p members) ++ writeMembers f (S.addAt p) members := by rw [hbase, hadded]
    _ = S.visitMembers f p members := (hplace.visitMembers_eq hS hnodup).symm

/-- What keeps items reads keys, and finds none in any array. -/
theorem WritesInPlace.writeItems_eq (hplace : S.WritesInPlace p) {ds : List Directive}
    (hds : ∀ d ∈ ds, d ∈ S.directivesAt p) (xs ys : List Value) : writeItems f ds xs = writeItems f ds ys := by
  apply List.map_congr_left
  intro d hd
  have hnone : ∀ zs, d.findItem? zs = none := by
    intro zs
    rcases hplace.base_eq (hds d hd) with ⟨k, hk⟩
    rw [Directive.findItem?, hplace.source_eq (hds d hd), hk]
    rfl
  rw [hnone, hnone]

/-- An array that was visited is left as it is, if nothing is added to it. -/
theorem SettlesBelow.visitItems_visitItems {items : List Value} (hf : S.SettlesBelow f p (.array items))
    (h : compile c = .ok S) (hc : c.Unindexed) (hplace : S.WritesInPlace p) (hadd : S.addAt p = []) :
    S.visitItems f p (S.visitItems f p items) = S.visitItems f p items := by
  cases hkeep : S.keepAt p with
  | some kept =>
    have hS := coherent_of_compile h
    have hkept := hplace.writeItems_eq (f := f) fun d hd => mem_directivesAt_of_keepAt hkeep hd
    rw [hS.visitItems_of_keepAt hkeep, hS.visitItems_of_keepAt hkeep, hadd, hkept _ items]
    rfl
  | none =>
    -- all items are dropped, or all are passed on at the wildcard
    have hpass : ∀ xs, S.visitItems f p xs =
        if c.dropsPath p.wildcard then [] else xs.map (f p.wildcard) := by
      intro xs
      rw [visitItems_of_keepAt_eq_none hkeep, hadd, passItems_of_unindexed h hc]
      exact List.append_nil _
    rw [hpass, hpass]
    cases c.dropsPath p.wildcard with
    | true => rfl
    | false =>
      have hagain : ∀ u ∈ items, f p.wildcard (f p.wildcard u) = f p.wildcard u :=
        fun u hu => hf.again ⟨⟨.wildcard, rfl⟩, Or.inl hu⟩
      simpa using hagain

theorem SettlesBelow.visitLevel_visitLevel {v : Value} (hf : S.SettlesBelow f p v) (h : compile c = .ok S)
    (hc : c.Unindexed) (hplace : S.WritesInPlace p) (hv : v.Distinct)
    (hadd : ∀ items, v = .array items → S.addAt p = []) :
    S.visitLevel f p (S.visitLevel f p v) = S.visitLevel f p v := by
  cases hv with
  | @array items _ =>
    rw [visitLevel_array, visitLevel_array, hf.visitItems_visitItems h hc hplace (hadd items rfl)]
  | @object members keys _ =>
    rw [visitLevel_object, visitLevel_object, hf.visitMembers_visitMembers (coherent_of_compile h) hplace keys]
  | _ => rfl

/-! ## Visits again -/

/-- A kind of values that visits stay within on the way down, and of which nothing is added to an array. -/
structure AddsOnce (S : Schema) (P : Value → Prop) : Prop where
  distinct {v : Value} : P v → v.Distinct
  child {v u : Value} : P v → u ∈ v.children → P u
  default : S.EachDefault P
  array {items : List Value} : P (.array items) → ∀ p, S.addAt p = []

theorem Coherent.visit_null (hS : S.Coherent) (p : Path) : S.visit p .null = .null := by
  rw [hS.visit_eq]
  split
  · rfl
  · rfl

/-- A visit of what was visited changes nothing. -/
theorem AddsOnce.visit_visit {P : Value → Prop} (hP : S.AddsOnce P) (h : compile c = .ok S) (hc : c.Unindexed)
    (hplace : ∀ p, S.WritesInPlace p) {v : Value} (hv : P v) : S.visit p (S.visit p v) = S.visit p v := by
  have hS := coherent_of_compile h
  -- defaults are not inside `v`, so the induction is on the levels left below `p`
  have hlevels : ∀ n p v, S.depth < n + p.depth → P v → S.visit p (S.visit p v) = S.visit p v := by
    intro n
    induction n with
    | zero =>
      intro p v hn _
      have hp : S.visits p = false := not_visits_of_depth_lt (by omega)
      rw [visit_of_not_visits hp, visit_of_not_visits hp]
    | succ n ih =>
      intro p v hn hv
      cases hp : S.visits p with
      | false => rw [visit_of_not_visits hp, visit_of_not_visits hp]
      | true =>
        have hbelow : S.SettlesBelow S.visit p v := by
          refine ⟨hS.visit_null, ?_⟩
          intro q u hq
          have hqdepth := hq.depth_eq
          have hu : P u := by
            rcases hq.given with hchild | ⟨d, hd, _, hdefault⟩
            · exact hP.child hv hchild
            · exact hP.default p d hd u hdefault
          exact ih q u (by omega) hu
        rw [hS.visit_of_visits hp, hS.visit_of_visits hp]
        exact hbelow.visitLevel_visitLevel h hc (hplace p) (hP.distinct hv) fun items hitems =>
          hP.array (hitems ▸ hv) p
  exact hlevels (S.depth + 1) p v (by omega) hv

/-- The fields of a record are of a kind of values that is added to once: any values, if nothing is added at all, and
else those without arrays. -/
theorem exists_addsOnce (h : compile c = .ok S) (hdefault : S.EachDefault Value.Distinct) {r : List (String × Value)}
    (hr : (Value.object r).Distinct)
    (harray : (∀ e ∈ c.addColumns, e.isNested = false) ∨
      (Value.object r).ArrayFree ∧ S.EachDefault Value.ArrayFree) :
    ∃ P, S.AddsOnce P ∧ ∀ v ∈ (Value.object r).children, P v := by
  rcases harray with hadd | ⟨hfree, hdefaultFree⟩
  · -- nothing is added anywhere
    refine ⟨Value.Distinct, ⟨id, fun hv hu => hv.child hu, hdefault, ?_⟩, fun v hv => hr.child hv⟩
    exact fun _ => addAt_of_nested_eq_nil h (nested_eq_nil hadd)
  · -- there is no array to add to, neither in the record nor in what is written into it
    refine ⟨fun v => v.Distinct ∧ v.ArrayFree, ⟨And.left, ?_, ?_, ?_⟩, fun v hv => ⟨hr.child hv, hfree.child hv⟩⟩
    · rintro v u ⟨hdistinct, hfree⟩ hu
      exact ⟨hdistinct.child hu, hfree.child hu⟩
    · exact fun p d hd u hu => ⟨hdefault p d hd u hu, hdefaultFree p d hd u hu⟩
    · rintro items ⟨_, hitems⟩
      cases hitems

/-- Rewriting a record again changes nothing, if no name has a position, nothing has a source, and nothing is added to
arrays. -/
theorem rewriteRecord_rewriteRecord {c : Config} {S : Schema} (h : compile c = .ok S) (hc : c.Unindexed)
    (hsource : ∀ e ∈ c.columns ++ c.addColumns, e.source = none)
    (hliteral : ∀ e ∈ c.columns ++ c.addColumns, ∀ u, e.default = some u → u.Distinct)
    {r : List (String × Value)} (hr : (Value.object r).Distinct)
    (harray : (∀ e ∈ c.addColumns, e.isNested = false) ∨
      (Value.object r).ArrayFree ∧ S.EachDefault Value.ArrayFree) :
    S.rewriteRecord (S.rewriteRecord r) = S.rewriteRecord r := by
  have hS := coherent_of_compile h
  have hdefault := eachDefault_distinct_of_compile h hliteral
  rcases exists_addsOnce h hdefault hr harray with ⟨P, hP, hfields⟩
  rw [rewriteRecord, rewriteRecord, List.map_map]
  apply List.map_congr_left
  rintro ⟨name, v⟩ hmem
  have hfield : P v := hfields v (List.mem_map.2 ⟨(name, v), hmem, rfl⟩)
  have hv : v.Distinct := hP.distinct hfield
  -- both times the rewrite is a visit, since the first one leaves no key twice
  have hvisited : (S.visit (Path.field name) v).Distinct := hS.distinct_visit hdefault hv
  have hagain : S.rewrite (Path.field name) (S.rewrite (Path.field name) v) = S.rewrite (Path.field name) v := by
    rw [rewrite_eq_visit hv, rewrite_eq_visit hvisited]
    exact hP.visit_visit h hc (writesInPlace_of_compile h hc hsource) hfield
  exact congrArg (fun w => (name, w)) hagain

/-- A kept default has a member of its own that is kept, and an added one gets a member added. The member `z` is
missing, and `n` is kept and also added, which moves it to the end. -/
theorem rewriteRecord_rewriteRecord_nested_defaults :
    let entry (name : String) : Column := ⟨name, none, none, none⟩
    let json (name : String) (literal : Value) : Column := ⟨name, some .json, some literal, none⟩
    let inner : Value := .object [("l", .null)]
    let c : Config := ⟨[entry "$.a.n", json "$.a.k" inner, json "$.a.k.m" .null, entry "$.a.z", entry "$.d[*].x"],
      [json "$.a.n" .null, json "$.b.w" inner, json "$.b.w.l.t" .null, json "$.b.w.u" (.string "true")], []⟩
    let a := Path.field "a"
    let b := Path.field "b"
    let d := Path.field "d"
    let bare (p : Path) (k : String) : Path × Directive := (p.key k, ⟨p, .name k, none, none, none⟩)
    let filled (p : Path) (k : String) (u : Value) : Path × Directive :=
      (p.key k, ⟨p, .name k, some .json, some u, none⟩)
    let S : Schema := ⟨[a, a.key "n", a.key "k", (a.key "k").key "m", a.key "z", d, d.wildcard, d.wildcard.key "x",
        b, b.key "w", (b.key "w").key "l", ((b.key "w").key "l").key "t", (b.key "w").key "u"],
      [(a, [bare a "n", filled a "k" inner, bare a "z"]), (a.key "k", [filled (a.key "k") "m" .null]),
        (d.wildcard, [bare d.wildcard "x"])],
      [(a, [filled a "n" .null]), (b, [filled b "w" inner]),
        ((b.key "w").key "l", [filled ((b.key "w").key "l") "t" .null]),
        (b.key "w", [filled (b.key "w") "u" (.bool true)])], []⟩
    let r : List (String × Value) := [("b", .object [("y", .null)]),
      ("a", .object [("n", .string "n"), ("y", .bool false)]), ("c", .null)]
    compile c = .ok S ∧ c.Unindexed ∧ (∀ e ∈ c.columns ++ c.addColumns, e.source = none) ∧
      (∀ e ∈ c.columns ++ c.addColumns, ∀ u, e.default = some u → u.Distinct) ∧ (Value.object r).Distinct ∧
      (Value.object r).ArrayFree ∧ S.EachDefault Value.ArrayFree ∧
      S.rewriteRecord r = [("b", .object [("y", .null), ("w", .object [("l", .null), ("u", .bool true)])]),
        ("a", .object [("k", .object [("m", .null)]), ("z", .null), ("n", .string "n")]), ("c", .null)] ∧
      S.rewriteRecord (S.rewriteRecord r) = S.rewriteRecord r := by
  intro entry json inner c a b d bare filled S r
  have h : compile c = .ok S := by cbv
  have hnames : c.names = [a.key "n", a.key "k", (a.key "k").key "m", a.key "z", d.wildcard.key "x", a.key "n",
      b.key "w", ((b.key "w").key "l").key "t", (b.key "w").key "u"] := by cbv
  have hc : c.Unindexed := by
    rw [Config.Unindexed, hnames]
    simp [a, b, d, Path.segments, Path.key, Path.wildcard, Path.field]
  have hsource : ∀ e ∈ c.columns ++ c.addColumns, e.source = none := by simp [c, entry, json]
  have hliteral : ∀ e ∈ c.columns ++ c.addColumns, ∀ u, e.default = some u → u.Distinct := by
    simp [c, entry, json, inner, Dictionary.keys]
  have hr : (Value.object r).Distinct := by simp [r, Dictionary.keys]
  have hfree : (Value.object r).ArrayFree := by simp [r]
  have hdefault : S.EachDefault Value.ArrayFree := by
    have hdefaults : S.defaults = [inner, .null, .null, inner, .null, .bool true] := by cbv
    apply eachDefault_of_defaults
    rw [hdefaults]
    simp [inner]
  exact ⟨h, hc, hsource, hliteral, hr, hfree, hdefault, by cbv,
    rewriteRecord_rewriteRecord h hc hsource hliteral hr (Or.inr ⟨hfree, hdefault⟩)⟩

end Schema

end RecordFilter
