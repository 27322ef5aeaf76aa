import RecordFilter.Proofs.Path.Printing
import RecordFilter.Proofs.Visit.Ownership
import RecordFilter.Proofs.Visit.Pruning
import RecordFilter.Proofs.Visit.Results

namespace RecordFilter

/-! # Keys are not paths

A path text is cut at each dot and each opening bracket, so no name in a path that was read has one of these in it, or is
empty. A member whose key is like that is not on the way to any configured path, whatever the text of its own path looks
like: it is not entered (`Schema.not_visits_key`), so it is not dropped either, and no directive writes under its key
(`Schema.not_unnameable_of_mem_directivesAt`). Where nothing is kept it stays as it is (`Schema.visit_leaves_unnameable`).
-/

open Json (Value)

namespace Path

/-- A key that no path text names: it is empty, or has a dot or an opening bracket in it. -/
def Unnameable (k : String) : Prop := k = "" ∨ '.' ∈ k.toList ∨ '[' ∈ k.toList

instance : DecidablePred Unnameable := fun k =>
  inferInstanceAs (Decidable (k = "" ∨ '.' ∈ k.toList ∨ '[' ∈ k.toList))

theorem Plain.not_unnameable {p : Path} (h : p.Plain) {n : String} (hn : .name n ∈ p.segments) : ¬ Unnameable n := by
  rcases h n hn with ⟨hne, hdot, hbracket⟩
  rintro (hempty | hdot' | hbracket')
  · exact hne hempty
  · exact hdot hdot'
  · exact hbracket hbracket'

/-- An index is written in digits, so as a key it has neither a dot nor a bracket in it. -/
theorem not_unnameable_key_index (i : Nat) : ¬ Unnameable (Segment.key (.index i)) := by
  have hchars : (Segment.key (.index i)).toList = Text.digits i := String.toList_ofList
  have hne : Text.digits i ≠ [] := Nat.toDigits_ne_nil
  rintro (hempty | hdot | hbracket)
  · rw [hempty] at hchars
    exact hne hchars.symm
  · rw [hchars] at hdot
    exact absurd (Text.isDigit_of_mem_digits hdot) (by decide)
  · rw [hchars] at hbracket
    exact absurd (Text.isDigit_of_mem_digits hbracket) (by decide)

end Path

namespace Schema

open RecordFilter.Path (Unnameable)

variable {c : Config} {S : Schema} {f g : Path → Value → Value} {p : Path} {members : List (String × Value)}

/-! ## What is configured -/

theorem plain_of_mem_names {n : Path} (hn : n ∈ c.names) : n.Plain := by
  rcases Config.exists_parse_of_mem_names hn with ⟨t, ht⟩
  exact Path.plain_of_parse ht

theorem plain_of_visits (h : compile c = .ok S) (hp : S.visits p) : p.Plain := by
  rcases (visits_iff_of_compile h).1 hp with ⟨n, hn, hprefix⟩
  have hsegments := (Path.mem_prefixes_iff.1 hprefix).2
  exact fun m hm => plain_of_mem_names hn m (hsegments.subset hm)

/-- No such member is entered. -/
theorem not_visits_key (h : compile c = .ok S) (p : Path) {k : String} (hk : Unnameable k) :
    S.visits (p.key k) = false := by
  cases hp : S.visits (p.key k) with
  | false => rfl
  | true =>
    have hlast : Segment.name k ∈ (p.key k).segments := List.mem_append_right _ List.mem_cons_self
    exact absurd hk ((plain_of_visits h hp).not_unnameable hlast)

/-- No such member is dropped. -/
theorem not_contains_dropAt_key (h : compile c = .ok S) (p : Path) {k : String} (hk : Unnameable k) :
    ((S.dropAt p).getD []).contains (p.key k) = false := by
  cases hdrop : ((S.dropAt p).getD []).contains (p.key k) with
  | false => rfl
  | true =>
    have hvisit := (coherent_of_compile h).visits_dropped (List.contains_iff_mem.1 hdrop)
    rw [not_visits_key h p hk] at hvisit
    cases hvisit

/-- Under no such key does a directive write. -/
theorem not_unnameable_of_mem_directivesAt (h : compile c = .ok S) {d : Directive} (hd : d ∈ S.directivesAt p) :
    ¬ Unnameable d.base.key := by
  cases hbase : d.base with
  | name n =>
    have hplain := plain_of_visits h ((coherent_of_compile h).visits_directive hd)
    apply hplain.not_unnameable
    rw [Directive.path, hbase]
    exact List.mem_append_right _ List.mem_cons_self
  | index i => exact Path.not_unnameable_key_index i
  | wildcard => decide

/-! ## What is left -/

theorem filter_passMembers_unnameable (h : compile c = .ok S) (hbelow : ∀ k u, Unnameable k → f (p.key k) u = u) :
    (passMembers f p ((S.dropAt p).getD []) members).filter (fun e => Unnameable e.1) =
      members.filter fun e => Unnameable e.1 := by
  rw [← passMembers_filter fun k => decide (Unnameable k)]
  apply passMembers_eq_self
  · intro k hk
    rcases List.mem_map.1 hk with ⟨e, he, rfl⟩
    exact not_contains_dropAt_key h p (of_decide_eq_true (List.mem_filter.1 he).2)
  · intro k u hu
    exact hbelow k u (of_decide_eq_true (List.mem_filter.1 hu).2)

/-- Where nothing is kept, what is passed on and what is put behind it leave such members as they are. -/
theorem filter_appendMembers_unnameable (h : compile c = .ok S) (hbelow : ∀ k u, Unnameable k → f (p.key k) u = u) :
    (appendMembers (passMembers f p ((S.dropAt p).getD []) members) (writeMembers g (S.addAt p) members)).filter
        (fun e => Unnameable e.1) =
      members.filter fun e => Unnameable e.1 := by
  have hadded : ∀ e ∈ writeMembers g (S.addAt p) members, decide (Unnameable e.1) = false := by
    intro e he
    rcases List.mem_map.1 he with ⟨d, hd, rfl⟩
    exact decide_eq_false (not_unnameable_of_mem_directivesAt h (mem_directivesAt_of_addAt hd))
  calc (appendMembers (passMembers f p ((S.dropAt p).getD []) members)
          (writeMembers g (S.addAt p) members)).filter (fun e => Unnameable e.1)
      = (passMembers f p ((S.dropAt p).getD []) members).filter fun e => Unnameable e.1 :=
        Dictionary.filter_foldl_append (P := fun k => decide (Unnameable k)) _ hadded
    _ = members.filter fun e => Unnameable e.1 := filter_passMembers_unnameable h hbelow

/-- A member whose key no path text names is not entered. Where nothing is kept, visiting and rewriting leave such members of
an object as they are, one after the other as they were, and such fields of a record stay in their places. -/
theorem visit_leaves_unnameable {c : Config} {S : Schema} (h : compile c = .ok S) :
    (∀ (p : Path) k, Unnameable k → S.visits (p.key k) = false) ∧
      (∀ p members, S.keepAt p = none →
        ∃ seen taken, S.visit p (.object members) = .object seen ∧ S.rewrite p (.object members) = .object taken ∧
          (seen.filter fun e => Unnameable e.1) = (members.filter fun e => Unnameable e.1) ∧
          (taken.filter fun e => Unnameable e.1) = members.filter fun e => Unnameable e.1) ∧
      ∀ (r : List (String × Value)) (i : Nat) (name : String) (v : Value), r[i]? = some (name, v) →
        Unnameable name → (S.rewriteRecord r)[i]? = some (name, v) := by
  have hnot := not_visits_key h
  refine ⟨fun p _ => hnot p, ?object, ?record⟩
  case object =>
    intro p members hkeep
    cases hp : S.visits p with
    | false => exact ⟨members, members, visit_of_not_visits hp _, rewrite_of_not_visits hp _, rfl, rfl⟩
    | true =>
      rcases exists_rewrite_of_visits hp with ⟨n, hrewrite⟩
      refine ⟨_, _, (coherent_of_compile h).visit_object hp _,
        (hrewrite _).trans (rewriteLevel_object members), ?_, ?_⟩
      · rw [visitMembers_of_keepAt_eq_none hkeep]
        exact filter_appendMembers_unnameable h fun k u hk => visit_of_not_visits (hnot p hk) u
      · rw [rewriteMembers_of_keepAt_eq_none hkeep]
        exact filter_appendMembers_unnameable h fun k u hk => rewriteTo_of_not_visits (hnot p hk) u
  case record =>
    intro r i name v hi hname
    rw [rewriteRecord, List.getElem?_map, hi]
    show some (name, S.rewrite (Path.field name) v) = some (name, v)
    rw [rewrite_of_not_visits (p := Path.field name) (hnot .root hname)]

/-- The path of a member reads like one that is dropped, and the path of a field like one that is on the way to it. -/
theorem visit_leaves_unnameable_like_dropped :
    let c : Config := ⟨[], [⟨"$.x.z", some .boolean, some (.bool true), none⟩], [⟨"$.x.a.b", none, none, none⟩]⟩
    let x := Path.field "x"
    let S : Schema := ⟨[x, x.key "z", x.key "a", (x.key "a").key "b"], [],
      [(x, [(x.key "z", ⟨x, .name "z", some .boolean, some (.bool true), none⟩)])],
      [(x.key "a", [(x.key "a").key "b"])]⟩
    let members := [("a.b", Value.string "a.b"), ("z", .null), ("a", .object [("b", .null)]), ("", .bool false)]
    let r := [("x.a", Value.object [("b", .null)]), ("x", .object members)]
    compile c = .ok S ∧ (x.key "a.b").text = ((x.key "a").key "b").text ∧ Unnameable "a.b" ∧
      S.visits (x.key "a.b") = false ∧ S.keepAt x = none ∧
      S.rewrite x (.object members) =
        .object [("a.b", .string "a.b"), ("a", .object []), ("", .bool false), ("z", .null)] ∧
      (∃ taken, S.rewrite x (.object members) = .object taken ∧
        (taken.filter fun e => Unnameable e.1) = [("a.b", .string "a.b"), ("", .bool false)]) ∧
      r[0]? = some ("x.a", .object [("b", .null)]) ∧ Unnameable "x.a" ∧
      (S.rewriteRecord r)[0]? = some ("x.a", .object [("b", .null)]) := by
  intro c x S members r
  have h : compile c = .ok S := by cbv
  have hkey : Unnameable "a.b" := by decide
  have hname : Unnameable "x.a" := by decide
  have hkeep : S.keepAt x = none := by cbv
  obtain ⟨hnot, hobject, hrecord⟩ := visit_leaves_unnameable h
  obtain ⟨_, taken, _, htaken, _, hleft⟩ := hobject x members hkeep
  refine ⟨h, by cbv, hkey, hnot x _ hkey, hkeep, by cbv, ⟨taken, htaken, ?_⟩, rfl, hname,
    hrecord r 0 _ _ rfl hname⟩
  rw [hleft]
  cbv

end Schema

end RecordFilter
