import RecordFilter.Proofs.Visit.Ownership
import RecordFilter.Proofs.Visit.Results

namespace RecordFilter.Schema

/-! # The members of a result

An object that was visited is known by the order of its keys (`Coherent.keys_visitMembers`) and by what stands under each
of them (`Coherent.find?_visitMembers`). The keys that are added come last, in the order in which they are last written,
and under them stands what the last directive that writes them makes of the object as it was. Under any other key stands
what is kept or passed on. Where columns are kept, that too is written by directives, so the input has no say in which
keys there are, or where (`visit_follows_directives`).
-/

open Json (Value)

variable {S : Schema} {f : Path → Value → Value} {p : Path} {members : List (String × Value)}

/-! ## What is written -/

/-- The keys that are added at a path. -/
def addedKeys (S : Schema) (p : Path) : List String := (S.addAt p).map fun d => d.base.key

/-- The members that are kept or passed on and not added. -/
def untouched (S : Schema) (p : Path) (members : List (String × Value)) : List (String × Value) :=
  members.filter fun e => !(S.addedKeys p).contains e.1

/-- Of directives, the last one that writes under a key. -/
def lastWriting (k : String) (ds : List Directive) : Option Directive :=
  (ds.filter fun d => d.base.key = k).getLast?

theorem keys_writeMembers_addAt (members : List (String × Value)) :
    Dictionary.keys (writeMembers f (S.addAt p) members) = S.addedKeys p :=
  keys_writeMembers _ _

/-- What is written under a key last is what the last directive writes. -/
theorem getLast?_writeMembers (k : String) (ds : List Directive) :
    ((writeMembers f ds members).filter fun e => e.1 = k).getLast?.map Prod.snd =
      (lastWriting k ds).map fun d => d.write f (d.findMember? members) := by
  rw [← writeMembers_filter (fun j => decide (j = k)), writeMembers, List.getLast?_map, Option.map_map]
  rfl

/-- What is kept or passed on and not added, and behind it what is added. -/
theorem Coherent.visitMembers_eq_untouched_append (hS : S.Coherent) (h : (Dictionary.keys members).Nodup) :
    S.visitMembers f p members =
      S.untouched p (S.baseMembers f p members) ++ Dictionary.lasts (writeMembers f (S.addAt p) members) := by
  rw [hS.visitMembers_eq_appendMembers, appendMembers, Dictionary.foldl_append_eq (nodup_keys_baseMembers h),
    keys_writeMembers_addAt]
  rfl

theorem Coherent.keys_visitMembers (hS : S.Coherent) (h : (Dictionary.keys members).Nodup) :
    Dictionary.keys (S.visitMembers f p members) =
      ((Dictionary.keys (S.baseMembers f p members)).filter fun k => !(S.addedKeys p).contains k) ++
        (S.addedKeys p).dedup := by
  rw [hS.visitMembers_eq_appendMembers, appendMembers, Dictionary.keys_foldl_append (nodup_keys_baseMembers h),
    keys_writeMembers_addAt]

theorem Coherent.find?_visitMembers (hS : S.Coherent) (k : String) (members : List (String × Value)) :
    Dictionary.find? k (S.visitMembers f p members) =
      ((lastWriting k (S.addAt p)).map fun d => d.write f (d.findMember? members)).or
        (Dictionary.find? k (S.baseMembers f p members)) := by
  rw [hS.visitMembers_eq_appendMembers, appendMembers, Dictionary.find?_foldl_append, getLast?_writeMembers]

/-! ## What is kept -/

theorem keys_baseMembers_of_keepAt {kept : List Directive} (h : S.keepAt p = some kept)
    (members : List (String × Value)) :
    Dictionary.keys (S.baseMembers f p members) = (kept.map fun d => d.base.key).eraseDups := by
  rw [baseMembers, h]
  exact (Dictionary.keys_ofList _).trans (congrArg List.eraseDups (keys_writeMembers _ _))

theorem find?_baseMembers_of_keepAt {kept : List Directive} (h : S.keepAt p = some kept) (k : String)
    (members : List (String × Value)) :
    Dictionary.find? k (S.baseMembers f p members) =
      (lastWriting k kept).map fun d => d.write f (d.findMember? members) := by
  rw [baseMembers, h]
  exact (Dictionary.find?_ofList _ _).trans (getLast?_writeMembers k kept)

/-! ## What is passed on -/

theorem find?_passMembers (k : String) (dropped : List Path) (members : List (String × Value)) :
    Dictionary.find? k (passMembers f p dropped members) =
      if dropped.contains (p.key k) then none else (Dictionary.find? k members).map (f (p.key k)) := by
  have hpass : passMembers f p dropped members =
      (members.filter fun e => !dropped.contains (p.key e.1)).map fun e => (e.1, f (p.key e.1) e.2) := rfl
  rw [hpass, Dictionary.find?_map (fun k v => f (p.key k) v), Dictionary.find?_filter fun k => !dropped.contains (p.key k)]
  cases dropped.contains (p.key k) with
  | true => rfl
  | false => rfl

/-! ## Where columns are kept -/

/-- Where columns are kept, the keys of a visited object are those that directives write, and under each stands what the
last of them makes of the object; those that add come after those that keep. A visited array has an item for each
directive. -/
theorem visit_follows_directives {c : Config} {S : Schema} (h : compile c = .ok S) {p : Path} (hp : S.visits p)
    {kept : List Directive} (hkeep : S.keepAt p = some kept) :
    (∀ members, (Value.object members).Distinct →
      ∃ result, S.visit p (.object members) = .object result ∧ S.rewrite p (.object members) = .object result ∧
        Dictionary.keys result =
          ((kept.map fun d => d.base.key).eraseDups.filter fun k => !(S.addedKeys p).contains k) ++
            (S.addedKeys p).dedup ∧
        ∀ k, Dictionary.find? k result =
          ((lastWriting k (S.addAt p)).or (lastWriting k kept)).map fun d =>
            d.write S.visit (d.findMember? members)) ∧
    ∀ items, (Value.array items).Distinct →
      S.visit p (.array items) = .array ((kept ++ S.addAt p).map fun d => d.write S.visit (d.findItem? items)) ∧
        S.rewrite p (.array items) =
          .array ((kept ++ S.addAt p).map fun d => d.write S.visit (d.findItem? items)) := by
  have hS := coherent_of_compile h
  constructor
  · intro members hdistinct
    have hnodup : (Dictionary.keys members).Nodup := (Value.distinct_object.1 hdistinct).1
    have hvisit := hS.visit_object hp members
    refine ⟨S.visitMembers S.visit p members, hvisit, ?_, ?_, ?_⟩
    · rw [rewrite_eq_visit hdistinct, hvisit]
    · rw [hS.keys_visitMembers hnodup, keys_baseMembers_of_keepAt hkeep]
    · intro k
      rw [hS.find?_visitMembers, find?_baseMembers_of_keepAt hkeep]
      cases lastWriting k (S.addAt p) with
      | none => rfl
      | some d => rfl
  · intro items hdistinct
    have hvisit : S.visit p (.array items) =
        .array ((kept ++ S.addAt p).map fun d => d.write S.visit (d.findItem? items)) := by
      rw [hS.visit_array hp, hS.visitItems_of_keepAt hkeep, List.map_append]
      rfl
    exact ⟨hvisit, by rw [rewrite_eq_visit hdistinct, hvisit]⟩

/-- Two kept columns write one key, and so do two added ones; a third added column takes a kept key to the end. In an array
only positions are found. -/
theorem visit_follows_directives_colliding_keys :
    let entry (name : String) : Column := ⟨name, none, none, none⟩
    let copied (name source : String) : Column := ⟨name, none, none, some source⟩
    let c : Config := ⟨[entry "$.a[0]", copied "$.a.k" "$.a.s", entry "$.a.n",
        ⟨"$.a.0", some .boolean, some (.bool true), none⟩],
      [copied "$.a.1" "$.a[1]", copied "$.a.n" "$.a.s", copied "$.a[1]" "$.a[0]"], []⟩
    let a := Path.field "a"
    let bare (s : Segment) : Directive := ⟨a, s, none, none, none⟩
    let taken (s source : Segment) : Directive := ⟨a, s, none, none, some (a.child source)⟩
    let kept := [bare (.index 0), taken (.name "k") (.name "s"), bare (.name "n"),
      ⟨a, .name "0", some .boolean, some (.bool true), none⟩]
    let added := [taken (.name "1") (.index 1), taken (.name "n") (.name "s"), taken (.index 1) (.index 0)]
    let S : Schema := ⟨[a, a.index 0, a.key "k", a.key "n", a.key "0", a.key "1", a.index 1],
      [(a, kept.map fun d => (d.path, d))], [(a, added.map fun d => (d.path, d))], []⟩
    let members := [("z", Value.null), ("s", .string "s"), ("n", .null)]
    let items := [Value.string "x", .string "y"]
    compile c = .ok S ∧ S.visits a ∧ S.keepAt a = some kept ∧ (Value.object members).Distinct ∧
      (Value.array items).Distinct ∧
      (∃ result, S.visit a (.object members) = .object result ∧ S.rewrite a (.object members) = .object result ∧
        Dictionary.keys result = ["0", "k", "n", "1"] ∧ Dictionary.find? "0" result = some (.bool true) ∧
        Dictionary.find? "n" result = some (.string "s") ∧ Dictionary.find? "1" result = some .null) ∧
      S.visit a (.array items) =
        .array [.string "x", .null, .null, .bool true, .string "y", .null, .string "x"] ∧
      S.rewrite a (.array []) = .array [.null, .null, .null, .bool true, .null, .null, .null] := by
  intro entry copied c a bare taken kept added S members items
  have h : compile c = .ok S := by cbv
  have hp : S.visits a := by cbv
  have hkeep : S.keepAt a = some kept := by cbv
  have hmembers : (Value.object members).Distinct := by simp [members, Dictionary.keys]
  have hitems : (Value.array items).Distinct := by simp [items]
  obtain ⟨hobject, harray⟩ := visit_follows_directives h hp hkeep
  obtain ⟨result, hvisit, hrewrite, hkeys, hfind⟩ := hobject members hmembers
  refine ⟨h, hp, hkeep, hmembers, hitems, ⟨result, hvisit, hrewrite, ?_, ?_, ?_, ?_⟩, ?_, ?_⟩
  · rw [hkeys]
    cbv
  · rw [hfind]
    cbv
  · rw [hfind]
    cbv
  · rw [hfind]
    cbv
  · rw [(harray items hitems).1]
    cbv
  · rw [(harray [] (by simp)).2]
    cbv

end RecordFilter.Schema
