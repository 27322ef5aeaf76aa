import RecordFilter.Proofs.Visit.Recursion

namespace RecordFilter.Schema

/-! # What a visit makes

What is right inside the result of a level was made by the levels below, or is a `null` (`children_visitLevel`). An
object that was visited has what is kept or passed on of it first, and behind that what is added, so a visit puts no
key in twice where none was there twice (`distinct_visit`).
-/

open Json (Value)

variable {S : Schema} {f g : Path → Value → Value} {p : Path}

/-! ## Items and members -/

/-- The members that are kept or passed on, before any are added. -/
def baseMembers (S : Schema) (f : Path → Value → Value) (p : Path) (members : List (String × Value)) :
    List (String × Value) :=
  match S.keepAt p with
  | some kept => Dictionary.ofList (writeMembers f kept members)
  | none => passMembers f p ((S.dropAt p).getD []) members

theorem baseMembers_of_keepAt_eq_none (h : S.keepAt p = none) (members : List (String × Value)) :
    S.baseMembers f p members = passMembers f p ((S.dropAt p).getD []) members := by
  rw [baseMembers, h]

theorem Coherent.visitMembers_eq_appendMembers (hS : S.Coherent) (members : List (String × Value)) :
    S.visitMembers f p members =
      appendMembers (S.baseMembers f p members) (writeMembers f (S.addAt p) members) := by
  unfold baseMembers
  cases hkeep : S.keepAt p with
  | some kept => exact hS.visitMembers_of_keepAt hkeep members
  | none => exact visitMembers_of_keepAt_eq_none hkeep members

/-- Passing on drops members and leaves the keys of the others. -/
theorem keys_passMembers (dropped : List Path) (members : List (String × Value)) :
    Dictionary.keys (passMembers f p dropped members) =
      (Dictionary.keys members).filter fun k => !dropped.contains (p.key k) := by
  simp only [passMembers, Dictionary.keys, List.map_map, List.filter_map]
  rfl

theorem nodup_keys_baseMembers {members : List (String × Value)} (h : (Dictionary.keys members).Nodup) :
    (Dictionary.keys (S.baseMembers f p members)).Nodup := by
  unfold baseMembers
  split
  · exact Dictionary.nodup_keys_ofList _
  · rw [keys_passMembers]
    exact List.filter_sublist.nodup h

theorem Coherent.nodup_keys_visitMembers (hS : S.Coherent) {members : List (String × Value)}
    (h : (Dictionary.keys members).Nodup) : (Dictionary.keys (S.visitMembers f p members)).Nodup := by
  rw [hS.visitMembers_eq_appendMembers]
  exact Dictionary.nodup_keys_foldl_append (nodup_keys_baseMembers h) _

/-- Members that are passed on twice are those that are dropped neither time. -/
theorem passMembers_passMembers {dropped₁ dropped₂ : List Path}
    (members : List (String × Value)) :
    passMembers g p dropped₂ (passMembers f p dropped₁ members) =
      passMembers (fun q u => g q (f q u)) p (dropped₁ ++ dropped₂) members := by
  simp only [passMembers, List.filter_map, List.map_map, List.filter_filter, List.contains_append, Bool.not_or,
    Function.comp_def]
  congr 1
  apply List.filter_congr
  rintro ⟨k, v⟩ _
  exact Bool.and_comm _ _

/-- Choosing members by their keys can be done before they are passed on. -/
theorem passMembers_filter (P : String → Bool) (dropped : List Path) (members : List (String × Value)) :
    passMembers f p dropped (members.filter fun e => P e.1) =
      (passMembers f p dropped members).filter fun e => P e.1 := by
  simp only [passMembers, List.filter_map, List.filter_filter, Function.comp_def]
  congr 1
  apply List.filter_congr
  rintro ⟨k, v⟩ _
  exact Bool.and_comm _ _

/-- Choosing written members by their keys is choosing the directives. -/
theorem writeMembers_filter (P : String → Bool) (ds : List Directive) (members : List (String × Value)) :
    writeMembers f (ds.filter fun d => P d.base.key) members =
      (writeMembers f ds members).filter fun e => P e.1 := by
  rw [writeMembers, writeMembers, List.filter_map]
  rfl

theorem keys_writeMembers (ds : List Directive) (members : List (String × Value)) :
    Dictionary.keys (writeMembers f ds members) = ds.map fun d => d.base.key := by
  rw [writeMembers, Dictionary.keys, List.map_map]
  rfl

/-! ## What is inside a result -/

/-- What a directive writes is what the levels below make of what they are given, or `null`. -/
theorem Coherent.write_eq (hS : S.Coherent) {v : Value} {d : Directive} (hd : d ∈ S.directivesAt p)
    {found : Option Value} (hfound : ∀ u, found = some u → u ∈ v.children) :
    d.write f found = .null ∨ ∃ q u, S.Reaches p v q u ∧ d.write f found = f q u := by
  have hbelow : ∃ s, d.path = p.child s := ⟨_, hS.path_eq_child hd⟩
  cases found with
  -- what is found is inside `v`; else the default is written, if there is one
  | some u => exact Or.inr ⟨d.path, u, ⟨hbelow, Or.inl (hfound u rfl)⟩, rfl⟩
  | none =>
    cases hdefault : d.default with
    | some u =>
      right
      refine ⟨d.path, u, ⟨hbelow, Or.inr ⟨d, hd, rfl, hdefault⟩⟩, ?_⟩
      simp [Directive.write, hdefault]
    | none =>
      left
      simp [Directive.write, hdefault]

theorem Coherent.of_mem_writeItems (hS : S.Coherent) {items : List Value} {ds : List Directive}
    (hds : ∀ d ∈ ds, d ∈ S.directivesAt p) {w : Value} (hw : w ∈ writeItems f ds items) :
    w = .null ∨ ∃ q u, S.Reaches p (.array items) q u ∧ w = f q u := by
  rcases List.mem_map.1 hw with ⟨d, hd, rfl⟩
  exact hS.write_eq (hds d hd) fun u hu => Directive.mem_of_findItem? hu

theorem Coherent.of_mem_writeMembers (hS : S.Coherent) {members : List (String × Value)} {ds : List Directive}
    (hds : ∀ d ∈ ds, d ∈ S.directivesAt p) {e : String × Value} (he : e ∈ writeMembers f ds members) :
    e.2 = .null ∨ ∃ q u, S.Reaches p (.object members) q u ∧ e.2 = f q u := by
  rcases List.mem_map.1 he with ⟨d, hd, rfl⟩
  exact hS.write_eq (hds d hd) fun u hu => Directive.mem_of_findMember? hu

theorem of_mem_passItems {dropped : List Path} {items : List Value} {w : Value}
    (hw : w ∈ S.passItems f p dropped items) : ∃ q u, S.Reaches p (.array items) q u ∧ w = f q u := by
  rcases List.mem_map.1 hw with ⟨⟨u, i⟩, hmem, rfl⟩
  have hu : u ∈ items := List.fst_mem_of_mem_zipIdx (List.mem_filter.1 hmem).1
  exact ⟨S.itemPath p i, u, ⟨itemPath_eq_child i, Or.inl hu⟩, rfl⟩

theorem of_mem_passMembers {dropped : List Path} {members : List (String × Value)} {e : String × Value}
    (he : e ∈ passMembers f p dropped members) : ∃ q u, S.Reaches p (.object members) q u ∧ e.2 = f q u := by
  rcases List.mem_map.1 he with ⟨⟨k, u⟩, hmem, rfl⟩
  have hu : u ∈ members.map Prod.snd := List.mem_map.2 ⟨(k, u), (List.mem_filter.1 hmem).1, rfl⟩
  exact ⟨p.key k, u, ⟨⟨.name k, rfl⟩, Or.inl hu⟩, rfl⟩

/-- What is right inside the result of a level was made by the levels below, or is a `null`. -/
theorem Coherent.children_visitLevel (hS : S.Coherent) {v w : Value} (hw : w ∈ (S.visitLevel f p v).children) :
    w = .null ∨ ∃ q u, S.Reaches p v q u ∧ w = f q u := by
  have hkept : ∀ {kept}, S.keepAt p = some kept → ∀ d ∈ kept, d ∈ S.directivesAt p :=
    fun hkeep d hd => mem_directivesAt_of_keepAt hkeep hd
  have hadded : ∀ d ∈ S.addAt p, d ∈ S.directivesAt p := fun d hd => mem_directivesAt_of_addAt hd
  cases v with
  | array items =>
    have hitems : w ∈ S.visitItems f p items := by rwa [visitLevel_array] at hw
    -- items are kept or passed on, and behind them others are added
    cases hkeep : S.keepAt p with
    | some kept =>
      rw [hS.visitItems_of_keepAt hkeep] at hitems
      rcases List.mem_append.1 hitems with hbase | hadd
      · exact hS.of_mem_writeItems (hkept hkeep) hbase
      · exact hS.of_mem_writeItems hadded hadd
    | none =>
      rw [visitItems_of_keepAt_eq_none hkeep] at hitems
      rcases List.mem_append.1 hitems with hbase | hadd
      · exact Or.inr (of_mem_passItems hbase)
      · exact hS.of_mem_writeItems hadded hadd
  | object members =>
    rw [visitLevel_object] at hw
    rcases List.mem_map.1 hw with ⟨e, he, rfl⟩
    rw [hS.visitMembers_eq_appendMembers] at he
    rcases Dictionary.mem_of_mem_foldl_append he with hbase | hadd
    · unfold baseMembers at hbase
      split at hbase
      · next kept hkeep => exact hS.of_mem_writeMembers (hkept hkeep) (Dictionary.mem_of_mem_ofList hbase)
      · -- nothing is kept, so the member was passed on
        exact Or.inr (of_mem_passMembers hbase)
    · exact hS.of_mem_writeMembers hadded hadd
  | _ => cases hw

/-! ## Distinct keys -/

/-- Something holds of each default of the schema. -/
def EachDefault (S : Schema) (P : Value → Prop) : Prop :=
  ∀ p, ∀ d ∈ S.directivesAt p, ∀ u, d.default = some u → P u

/-- The defaults in the tables, one after the other. -/
def defaults (S : Schema) : List Value := (S.keep ++ S.add).flatMap fun e => e.2.filterMap fun x => x.2.default

theorem eachDefault_of_defaults {P : Value → Prop} (h : ∀ u ∈ S.defaults, P u) : S.EachDefault P := by
  intro p d hd u hu
  rcases exists_mem_tables_of_mem_directivesAt hd with ⟨q, t, ht, hmem⟩
  exact h u (List.mem_flatMap.2 ⟨(p, t), ht, List.mem_filterMap.2 ⟨(q, d), hmem, hu⟩⟩)

theorem Coherent.distinct_visitTo (hS : S.Coherent) (hdefault : S.EachDefault Value.Distinct) {n : Nat} {v : Value}
    (hv : v.Distinct) : (S.visitTo n p v).Distinct := by
  induction n generalizing p v with
  | zero => exact hv
  | succ n ih =>
    unfold visitTo
    split
    · -- what is inside was visited with a level less, and was inside `v` or a default before that
      have hchild : ∀ w ∈ (S.visitLevel (S.visitTo n) p v).children, w.Distinct := by
        intro w hw
        rcases hS.children_visitLevel hw with rfl | ⟨q, u, hq, rfl⟩
        · exact .null
        · rcases hq.given with hinside | ⟨d, hd, _, hu⟩
          · exact ih (hv.child hinside)
          · exact ih (hdefault p d hd u hu)
      cases hv with
      | array _ => exact .array hchild
      | @object members keys _ =>
        refine .object (hS.nodup_keys_visitMembers keys) ?_
        intro e he
        exact hchild e.2 (List.mem_map.2 ⟨e, he, rfl⟩)
      | null => exact .null
      | bool b => exact .bool b
      | number m => exact .number m
      | string s => exact .string s
    · exact hv

/-- A visit makes no key stand twice. -/
theorem Coherent.distinct_visit (hS : S.Coherent) (hdefault : S.EachDefault Value.Distinct) {v : Value}
    (hv : v.Distinct) : (S.visit p v).Distinct :=
  hS.distinct_visitTo hdefault hv

/-- The defaults of a configuration have distinct keys if its literals have. -/
theorem eachDefault_distinct_of_compile {c : Config} (h : compile c = .ok S)
    (hliteral : ∀ e ∈ c.columns ++ c.addColumns, ∀ u, e.default = some u → u.Distinct) :
    S.EachDefault Value.Distinct := by
  intro p d hd u hu
  rcases exists_ofColumn_of_mem_directivesAt h hd with ⟨role, e, he, hdirective⟩
  exact Directive.distinct_default_of_ofColumn hdirective (hliteral e he) hu

end RecordFilter.Schema
