import RecordFilter.Proofs.Visit.Ownership
import RecordFilter.Proofs.Visit.Pruning

namespace RecordFilter

/-! # Dropping is restriction

What a configuration that only drops makes of a record can be said location by location. A location leads down from the
value of a field; the paths of a configuration speak of it through the path that it resolves to (`Config.resolve`). A
record is restricted to the locations of which none, and none above, is dropped (`Config.Survives`).
-/

open Json (Value)

/-- A step down into a value: to a member of an object, or to an item of an array. -/
inductive Step where
  | key (k : String)
  | item (i : Nat)
deriving DecidableEq, Repr

/-- Where something is in a value: the steps that lead to it. -/
abbrev Location := List Step

/-! ## Restriction -/

namespace Json.Value

mutual

/-- A value without what is not present in it. Positions count in the arrays as they were. -/
def restrict (present : Location → Bool) : Value → Value
  | .array items => .array (restrictItems present 0 items)
  | .object members => .object (restrictMembers present members)
  | v => v

/-- The items that are present, of those from position `i` on. -/
def restrictItems (present : Location → Bool) (i : Nat) : List Value → List Value
  | [] => []
  | v :: vs =>
    if present [.item i] then
      v.restrict (fun l => present (.item i :: l)) :: restrictItems present (i + 1) vs
    else restrictItems present (i + 1) vs

/-- The members that are present. -/
def restrictMembers (present : Location → Bool) : List (String × Value) → List (String × Value)
  | [] => []
  | (k, v) :: ms =>
    if present [.key k] then
      (k, v.restrict (fun l => present (.key k :: l))) :: restrictMembers present ms
    else restrictMembers present ms

end

end Json.Value

/-! ## What is dropped -/

namespace Config

/-- Whether a path leads to a name of the configuration, or is one. -/
def leads (c : Config) (p : Path) : Bool := c.names.any fun n => p.segments.isPrefixOf n.segments

/-- The path of what a step leads to, from a value with the path `q`. An item has a path of its own only if that leads to
a name. -/
def stepPath (c : Config) (q : Path) : Step → Path
  | .key k => q.key k
  | .item i => if c.leads (q.index i) then q.index i else q.wildcard

/-- The path that a location resolves to, below a value with the path `q`. -/
def resolve (c : Config) (q : Path) (l : Location) : Path := l.foldl c.stepPath q

/-- Whether a path is among the dropped names. -/
def dropsPath (c : Config) (p : Path) : Bool := (Schema.names c.dropColumns).contains p

/-- Whether what a step leads to is dropped by its own name, below a value with the path `q`. A wildcard names each item,
also one that has a path of its own. -/
def dropsStep (c : Config) (q : Path) : Step → Bool
  | .key k => c.dropsPath (q.key k)
  | .item i => c.dropsPath (q.index i) || c.dropsPath q.wildcard

/-- No step on the way to a location leads to something that is dropped. -/
def Survives (c : Config) (q : Path) (l : Location) : Prop :=
  ∀ above s below, l = above ++ s :: below → c.dropsStep (c.resolve q above) s = false

variable {c : Config}

theorem survives_nil (c : Config) (q : Path) : c.Survives q [] := by
  intro above s below h
  simp at h

/-- The first step decides first, and then the rest of the location below it. -/
theorem survives_cons {q : Path} {s : Step} {l : Location} :
    c.Survives q (s :: l) ↔ c.dropsStep q s = false ∧ c.Survives (c.stepPath q s) l := by
  constructor
  · intro h
    refine ⟨h [] s l rfl, ?_⟩
    intro above t below hl
    exact h (s :: above) t below (by rw [hl, List.cons_append])
  · rintro ⟨hhead, htail⟩ above t below hl
    -- the step in question is the first one, or one of those below it
    cases above with
    | nil =>
      cases hl
      exact hhead
    | cons s' above =>
      rw [List.cons_append, List.cons.injEq] at hl
      rcases hl with ⟨rfl, hl⟩
      exact htail above t below hl

instance decidableSurvives (c : Config) : ∀ (q : Path) (l : Location), Decidable (c.Survives q l)
  | q, [] => isTrue (survives_nil c q)
  | q, s :: l =>
    have := decidableSurvives c (c.stepPath q s) l
    decidable_of_iff _ survives_cons.symm

end Config

/-! ## Dropping by levels -/

namespace Schema

variable {c : Config} {S : Schema} {q : Path} {f : Path → Value → Value}

/-- A path is entered if it leads to a name, the root aside. -/
theorem visits_eq_leads (h : compile c = .ok S) (s : Segment) :
    S.visits (q.child s) = c.leads (q.child s) := by
  have hiff : S.visits (q.child s) ↔ c.leads (q.child s) := by
    rw [visits_iff_of_compile h, Config.leads, List.any_eq_true]
    constructor
    · rintro ⟨n, hn, hprefix⟩
      exact ⟨n, hn, List.isPrefixOf_iff_prefix.2 (Path.mem_prefixes_iff.1 hprefix).2⟩
    · rintro ⟨n, hn, hprefix⟩
      exact ⟨n, hn, Path.mem_prefixes_iff.2 ⟨Path.child_ne_root q s, List.isPrefixOf_iff_prefix.1 hprefix⟩⟩
  exact Bool.eq_iff_iff.2 hiff

theorem dropAt_contains (h : compile c = .ok S) (s : Segment) :
    ((S.dropAt q).getD []).contains (q.child s) = c.dropsPath (q.child s) := by
  have hiff : q.child s ∈ (S.dropAt q).getD [] ↔ q.child s ∈ names c.dropColumns := by
    rw [mem_dropAt_of_compile h]
    exact ⟨fun hmem => hmem.1, fun hmem => ⟨hmem, s, rfl⟩⟩
  rw [Config.dropsPath, List.contains_eq_mem, List.contains_eq_mem, decide_eq_decide]
  exact hiff

/-- The path of an item is the one that it resolves to. -/
theorem itemPath_eq_stepPath (h : compile c = .ok S) (i : Nat) :
    S.itemPath q i = c.stepPath q (.item i) := by
  rw [itemPath, Config.stepPath, Path.index, visits_eq_leads h]

theorem dropsItem_eq_dropsStep (h : compile c = .ok S) (i : Nat) :
    dropsItem q ((S.dropAt q).getD []) i = c.dropsStep q (.item i) := by
  rw [dropsItem, Config.dropsStep, Path.wildcard, Path.index, dropAt_contains h, dropAt_contains h,
    Bool.or_comm]

/-- What survives below a step that is not dropped survives in the whole. -/
theorem survives_below {s : Step} (hs : c.dropsStep q s = false) :
    (fun l => decide (c.Survives q (s :: l))) = fun l => decide (c.Survives (c.stepPath q s) l) := by
  funext l
  rw [decide_eq_decide, Config.survives_cons]
  exact ⟨fun h => h.2, fun h => ⟨hs, h⟩⟩

theorem decide_survives_step (s : Step) :
    decide (c.Survives q [s]) = !c.dropsStep q s := by
  rw [Bool.eq_iff_iff, decide_eq_true_iff, Config.survives_cons, Bool.not_eq_true']
  exact ⟨fun h => h.1, fun h => ⟨h, Config.survives_nil c _⟩⟩

/-- Passing items on is restricting the array if below each item it is restricting the item. -/
theorem passItems_eq_restrictItems (h : compile c = .ok S) {items : List Value}
    (hitems : ∀ v ∈ items, ∀ s, f (q.child s) v = v.restrict fun l => decide (c.Survives (q.child s) l)) :
    S.passItems f q ((S.dropAt q).getD []) items =
      Value.restrictItems (fun l => decide (c.Survives q l)) 0 items := by
  have hfrom : ∀ n, ((items.zipIdx n).filter fun e => !dropsItem q ((S.dropAt q).getD []) e.2).map
        (fun e => f (S.itemPath q e.2) e.1) =
      Value.restrictItems (fun l => decide (c.Survives q l)) n items := by
    -- positions count from `n`, in the array as it was
    induction items with
    | nil => exact fun n => rfl
    | cons v items ih =>
      intro n
      have htail := ih (fun u hu => hitems u (List.mem_cons_of_mem _ hu)) (n + 1)
      have hdropped := dropsItem_eq_dropsStep (q := q) h n
      simp only [List.zipIdx_cons, List.filter_cons, Value.restrictItems, decide_survives_step, hdropped]
      cases hdrop : c.dropsStep q (.item n) with
      | true => simpa using htail
      | false =>
        rcases itemPath_eq_child (S := S) (p := q) n with ⟨s, hs⟩
        have hhead : f (S.itemPath q n) v =
            v.restrict fun l => decide (c.Survives q (.item n :: l)) := by
          rw [survives_below hdrop, ← itemPath_eq_stepPath h, hs]
          exact hitems v List.mem_cons_self s
        simpa [hhead] using htail
  exact hfrom 0

theorem passMembers_eq_restrictMembers (h : compile c = .ok S) {members : List (String × Value)}
    (hmembers : ∀ v ∈ members.map Prod.snd, ∀ s,
      f (q.child s) v = v.restrict fun l => decide (c.Survives (q.child s) l)) :
    passMembers f q ((S.dropAt q).getD []) members =
      Value.restrictMembers (fun l => decide (c.Survives q l)) members := by
  induction members with
  | nil => rfl
  | cons e members ih =>
    rcases e with ⟨k, v⟩
    have htail := ih fun u hu => hmembers u (List.mem_cons_of_mem _ hu)
    have hkey : ((S.dropAt q).getD []).contains (q.key k) = c.dropsStep q (.key k) := dropAt_contains h _
    unfold passMembers at htail ⊢
    simp only [List.filter_cons, Value.restrictMembers, decide_survives_step, hkey]
    cases hdrop : c.dropsStep q (.key k) with
    | true => simpa using htail
    | false =>
      have hhead : f (q.key k) v = v.restrict fun l => decide (c.Survives q (.key k :: l)) := by
        rw [survives_below hdrop]
        exact hmembers v List.mem_cons_self (.name k)
      simpa [hhead] using htail

/-- Below the root a configuration that only drops restricts what it visits. -/
theorem visit_eq_restrict (h : compile c = .ok S) (hdrop : c.dropColumns ≠ [])
    (hadd : nested c.addColumns = []) (hroot : q ≠ .root) (v : Value) :
    S.visit q v = v.restrict fun l => decide (c.Survives q l) := by
  have hkeep := keepAt_of_drops h hdrop
  have hadded := addAt_of_nested_eq_nil h hadd
  -- a path that is not entered is treated like one that is, so the visited paths do not occur any more
  have hlevel := fun {q : Path} hroot v =>
    (coherent_of_compile h).visit_eq_visitLevel (p := q) hroot v
  induction v generalizing q with
  | array items ih =>
    have hpass := passItems_eq_restrictItems (q := q) h fun v hv s => ih v hv (Path.child_ne_root q s)
    rw [hlevel hroot, Value.restrict, ← hpass, visitLevel_array, visitItems_of_keepAt_eq_none (hkeep q), hadded]
    simp [writeItems]
  | object members ih =>
    have hpass := passMembers_eq_restrictMembers (q := q) h fun v hv s => by
      rcases List.mem_map.1 hv with ⟨e, he, rfl⟩
      exact ih e he (Path.child_ne_root q s)
    rw [hlevel hroot, Value.restrict, ← hpass, visitLevel_object, visitMembers_of_keepAt_eq_none (hkeep q),
      hadded]
    simp [writeMembers, appendMembers]
  | _ =>
    rw [hlevel hroot]
    rfl

/-- A configuration that only drops restricts each field to the locations of which none, and none above, is dropped. The
fields themselves stay. -/
theorem rewriteRecord_eq_restrict {c : Config} {S : Schema} (h : compile c = .ok S)
    (hdrop : c.dropColumns ≠ []) (hadd : ∀ e ∈ c.addColumns, e.isNested = false)
    (r : List (String × Value)) :
    S.rewriteRecord r =
      r.map fun e => (e.1, e.2.restrict fun l => decide (c.Survives (Path.field e.1) l)) := by
  have hnested : nested c.addColumns = [] := by
    apply List.filter_eq_nil_iff.2
    intro e he
    simp [hadd e he]
  apply List.map_congr_left
  rintro ⟨name, v⟩ _
  have hroot : Path.field name ≠ .root := Path.child_ne_root _ _
  show (name, S.rewrite (Path.field name) v) = _
  rw [rewrite_eq_visit_of_keepAt (keepAt_of_drops h hdrop),
    visit_eq_restrict h hdrop hnested hroot]

/-- The first item is dropped. The second has a path of its own, for the sake of a kept column, and keeps its member. -/
theorem rewriteRecord_eq_restrict_own_path :
    let entry (name : String) : Column := ⟨name, none, none, none⟩
    let c : Config := ⟨[entry "$.a[1].z"], [entry "f"], [entry "$.a[*].x", entry "$.a[0]"]⟩
    let a := Path.field "a"
    let S : Schema := ⟨[a, a.index 1, (a.index 1).key "z", a.wildcard, a.wildcard.key "x", a.index 0],
      [], [], [(a.wildcard, [a.wildcard.key "x"]), (a, [a.index 0])]⟩
    let item : Value := .object [("x", .null), ("0", .bool true)]
    let r : List (String × Value) := [("a", .array [item, item, item]), ("f", .null)]
    compile c = .ok S ∧ c.dropColumns ≠ [] ∧ (∀ e ∈ c.addColumns, e.isNested = false) ∧
      S.rewriteRecord r = [("a", .array [item, .object [("0", .bool true)]]), ("f", .null)] ∧
      S.rewriteRecord r =
        r.map fun e => (e.1, e.2.restrict fun l => decide (c.Survives (Path.field e.1) l)) := by
  intro entry c a S item r
  have h : compile c = .ok S := by cbv
  have hdrop : c.dropColumns ≠ [] := by simp [c]
  have hadd : ∀ e ∈ c.addColumns, e.isNested = false := by
    intro e he
    rw [List.mem_singleton.1 he]
    cbv
  exact ⟨h, hdrop, hadd, by cbv, rewriteRecord_eq_restrict h hdrop hadd r⟩

end Schema

end RecordFilter
