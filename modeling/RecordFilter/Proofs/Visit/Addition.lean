import RecordFilter.Proofs.Visit.Agreement
import RecordFilter.Proofs.Visit.Members

namespace RecordFilter.Schema

/-! # What adding does

What is added at a path has no say in what is kept or passed on there, and none in what is made of the values below. So
a schema is compared with itself less what is added at one path (`withoutAdded`): the two agree at every other path, and
at the path itself they make the same, up to what stands at the end (`visit_eq_withoutAdded_append`). What stands there
is read off the value as it was, so no added value is read by the directive of another.
-/

open Json (Value)

variable {S : Schema} {f : Path → Value → Value} {p q : Path}

/-! ## Less what is added -/

/-- The schema without what is added at a path. -/
def withoutAdded (S : Schema) (p : Path) : Schema := { S with add := S.add.filter fun e => e.1 ≠ p }

theorem addAt_withoutAdded_self (S : Schema) (p : Path) : (S.withoutAdded p).addAt p = [] := by
  have hfind : Dictionary.find? p (S.withoutAdded p).add = none := by
    rw [withoutAdded, Dictionary.find?_filter fun q => decide (q ≠ p)]
    simp
  simp [addAt, hfind]

theorem addAt_withoutAdded_of_ne (S : Schema) (h : q ≠ p) : (S.withoutAdded p).addAt q = S.addAt q := by
  have hfind : Dictionary.find? q (S.withoutAdded p).add = Dictionary.find? q S.add := by
    rw [withoutAdded, Dictionary.find?_filter fun q => decide (q ≠ p)]
    simp [h]
  rw [addAt, hfind, addAt]

theorem mem_directivesAt_of_withoutAdded {d : Directive} (h : d ∈ (S.withoutAdded p).directivesAt q) :
    d ∈ S.directivesAt q := by
  rcases List.mem_append.1 h with hkept | hadded
  · exact List.mem_append_left _ hkept
  · by_cases hq : q = p
    · rw [hq, addAt_withoutAdded_self] at hadded
      cases hadded
    · rw [addAt_withoutAdded_of_ne S hq] at hadded
      exact mem_directivesAt_of_addAt hadded

theorem Coherent.withoutAdded (hS : S.Coherent) (p : Path) : (S.withoutAdded p).Coherent where
  parent_eq hd := hS.parent_eq (mem_directivesAt_of_withoutAdded hd)
  visits_directive hd := hS.visits_directive (mem_directivesAt_of_withoutAdded hd)
  visits_dropped := hS.visits_dropped
  dropped_eq := hS.dropped_eq
  keepAt_ne := hS.keepAt_ne
  dropAt_ne := hS.dropAt_ne
  exclusive := hS.exclusive
  visits_parent := hS.visits_parent

/-- At any other path nothing is different. -/
theorem agreeAt_withoutAdded (S : Schema) (h : q ≠ p) : AgreeAt S (S.withoutAdded p) q where
  keepAt_eq := rfl
  addAt_eq := (addAt_withoutAdded_of_ne S h).symm
  mem_dropAt _ := Iff.rfl
  visit_item _ := Or.inl rfl

/-- A visit does not come back to a path from below it. -/
theorem Coherent.visit_withoutAdded_of_depth_lt (hS : S.Coherent) (h : p.depth < q.depth) (v : Value) :
    (S.withoutAdded p).visit q v = S.visit q v := by
  have hne : ∀ q, p.depth < q.depth → q ≠ p := by
    rintro q hlt rfl
    exact Nat.lt_irrefl _ hlt
  symm
  apply hS.visit_eq_of_agreeAt (hS.withoutAdded p) (P := fun q => p.depth < q.depth) ?root ?child ?agree h
  case root =>
    rintro q hlt rfl
    exact Nat.not_lt_zero _ hlt
  case child => exact fun q s hlt => Nat.lt_succ_of_lt hlt
  case agree => exact fun q hlt => agreeAt_withoutAdded S (hne q hlt)

theorem Coherent.visit_withoutAdded (hS : S.Coherent) (hp : S.visits p) (v : Value) :
    (S.withoutAdded p).visit p v = (S.withoutAdded p).visitLevel S.visit p v := by
  have hS' := hS.withoutAdded p
  rw [hS'.visit_of_visits hp]
  apply hS'.visitLevel_congr
  intro q u hq
  have hdepth := hq.depth_eq
  exact hS.visit_withoutAdded_of_depth_lt (by omega) u

/-! ## What stands at the end -/

/-- Of directives, those under whose keys none of the later ones writes. -/
def lastWriters : List Directive → List Directive
  | [] => []
  | d :: ds => if d.base.key ∈ ds.map fun e => e.base.key then lastWriters ds else d :: lastWriters ds

/-- Of written members, those are last that are written by last writers. -/
theorem lasts_writeMembers (ds : List Directive) (members : List (String × Value)) :
    Dictionary.lasts (writeMembers f ds members) = writeMembers f (lastWriters ds) members := by
  induction ds with
  | nil => rfl
  | cons d ds ih =>
    have hcons : writeMembers f (d :: ds) members =
        (d.base.key, d.write f (d.findMember? members)) :: writeMembers f ds members := rfl
    rw [hcons, Dictionary.lasts, keys_writeMembers, ih, lastWriters]
    split
    · rfl
    · rfl

theorem Coherent.visitMembers_withoutAdded (hS : S.Coherent) (members : List (String × Value)) :
    (S.withoutAdded p).visitMembers f p members = S.baseMembers f p members := by
  rw [(hS.withoutAdded p).visitMembers_eq_appendMembers, addAt_withoutAdded_self]
  rfl

/-- Added items stand behind those that are there without them. -/
theorem visitItems_eq_withoutAdded_append (items : List Value) :
    S.visitItems f p items = (S.withoutAdded p).visitItems f p items ++ writeItems f (S.addAt p) items := by
  have hnone : writeItems f ((S.withoutAdded p).addAt p) items = [] := by
    rw [addAt_withoutAdded_self]
    rfl
  rw [visitItems, visitItems, hnone, List.append_nil]
  rfl

/-- What is added at a path comes behind what a visit makes without it. Of an object, the keys that are added are taken
out in front, and behind stands for each of them what the last directive that writes it makes of the object as it was.
Of an array, behind stands what each directive makes of the array as it was. -/
theorem visit_eq_withoutAdded_append {c : Config} {S : Schema} (h : compile c = .ok S) {p : Path} (hp : S.visits p) :
    (∀ members, (Dictionary.keys members).Nodup →
      ∃ base, (S.withoutAdded p).visit p (.object members) = .object base ∧
        S.visit p (.object members) = .object (S.untouched p base ++
          (lastWriters (S.addAt p)).map fun d => (d.base.key, d.write S.visit (d.findMember? members)))) ∧
    ∀ items,
      ∃ base, (S.withoutAdded p).visit p (.array items) = .array base ∧
        S.visit p (.array items) =
          .array (base ++ (S.addAt p).map fun d => d.write S.visit (d.findItem? items)) := by
  have hS := coherent_of_compile h
  constructor
  · intro members hmembers
    refine ⟨S.baseMembers S.visit p members, ?_, ?_⟩
    · rw [hS.visit_withoutAdded hp, visitLevel_object, hS.visitMembers_withoutAdded]
    · rw [hS.visit_object hp, hS.visitMembers_eq_untouched_append hmembers, lasts_writeMembers]
      rfl
  · intro items
    refine ⟨(S.withoutAdded p).visitItems S.visit p items, ?_, ?_⟩
    · rw [hS.visit_withoutAdded hp, visitLevel_array]
    · rw [hS.visit_array hp, visitItems_eq_withoutAdded_append]
      rfl

/-- Two added columns write one key, a third takes a key to the end that is there, and reads one that is not, although it is
written. What is dropped is read all the same. -/
theorem visit_eq_withoutAdded_append_dropped_source :
    let copied (name source : String) : Column := ⟨name, none, none, some source⟩
    let c : Config := ⟨[], [⟨"$.a.0", some .boolean, some (.bool true), none⟩, copied "$.a.n" "$.a.0",
      copied "$.a[0]" "$.a.s"], [⟨"$.a.s", none, none, none⟩]⟩
    let a := Path.field "a"
    let added : List Directive := [⟨a, .name "0", some .boolean, some (.bool true), none⟩,
      ⟨a, .name "n", none, none, some (a.key "0")⟩, ⟨a, .index 0, none, none, some (a.key "s")⟩]
    let S : Schema := ⟨[a, a.key "0", a.key "n", a.index 0, a.key "s"], [], [(a, added.map fun d => (d.path, d))],
      [(a, [a.key "s"])]⟩
    let members := [("n", Value.bool false), ("s", .string "s"), ("z", .null)]
    let items := [Value.string "x", .string "y"]
    compile c = .ok S ∧ S.visits a ∧ (Dictionary.keys members).Nodup ∧
      (S.withoutAdded a).visit a (.object members) = .object [("n", .bool false), ("z", .null)] ∧
      S.visit a (.object members) = .object [("z", .null), ("n", .null), ("0", .string "s")] ∧
      S.visit a (.array items) = .array [.string "x", .string "y", .bool true, .null, .null] := by
  intro copied c a added S members items
  have h : compile c = .ok S := by cbv
  have hp : S.visits a := by cbv
  have hmembers : (Dictionary.keys members).Nodup := by decide
  have hbase : (S.withoutAdded a).visit a (.object members) = .object [("n", .bool false), ("z", .null)] := by cbv
  obtain ⟨hobject, harray⟩ := visit_eq_withoutAdded_append h hp
  refine ⟨h, hp, hmembers, hbase, ?_, ?_⟩
  · obtain ⟨base, hwithout, hvisit⟩ := hobject members hmembers
    cases hbase.symm.trans hwithout
    rw [hvisit]
    cbv
  · obtain ⟨base, hwithout, hvisit⟩ := harray items
    have hitems : (S.withoutAdded a).visit a (.array items) = .array items := by cbv
    cases hitems.symm.trans hwithout
    rw [hvisit]
    cbv

end RecordFilter.Schema
