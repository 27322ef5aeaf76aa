import RecordFilter.Json.Parser
import RecordFilter.Proofs.Dictionary
import Mathlib.Data.List.Forall2

namespace RecordFilter.Json

/-! # The structure of values

What is right inside a value, how deep it is nested, whether its keys are distinct, and whether it has arrays. An
object is a list of members, which alone does not keep one key from standing there twice. Two values may differ in the
order of members only (`SameUpToOrder`).
-/

namespace Value

/-- Induction over a value and all that is in it. -/
@[elab_as_elim, induction_eliminator]
theorem induction {motive : Value → Prop} (null : motive .null) (bool : ∀ b, motive (.bool b))
    (number : ∀ n, motive (.number n)) (string : ∀ s, motive (.string s))
    (array : ∀ items, (∀ v ∈ items, motive v) → motive (.array items))
    (object : ∀ members, (∀ e ∈ members, motive e.2) → motive (.object members)) :
    ∀ v, motive v
  | .null => null
  | .bool b => bool b
  | .number n => number n
  | .string s => string s
  | .array items => array items fun v hv =>
    have := List.sizeOf_lt_of_mem hv
    induction null bool number string array object v
  | .object members => object members fun e he =>
    have := List.sizeOf_lt_of_mem he
    induction null bool number string array object e.2
termination_by v => sizeOf v
decreasing_by
  · simp only [Value.array.sizeOf_spec]
    omega
  · have : sizeOf e.2 < sizeOf e := by
      cases e
      simp only [Prod.mk.sizeOf_spec]
      omega
    simp only [Value.object.sizeOf_spec]
    omega

/-- The values right inside a value. -/
def children : Value → List Value
  | .array items => items
  | .object members => members.map Prod.snd
  | _ => []

/-! ## Nesting -/

mutual

/-- The levels of arrays and objects in a value. -/
def nest : Value → Nat
  | .array items => nestItems items + 1
  | .object members => nestMembers members + 1
  | _ => 0

/-- The levels in the deepest item. -/
def nestItems : List Value → Nat
  | [] => 0
  | v :: vs => max v.nest (nestItems vs)

/-- The levels in the deepest member. -/
def nestMembers : List (String × Value) → Nat
  | [] => 0
  | (_, v) :: ms => max v.nest (nestMembers ms)

end

theorem nest_le_nestItems {items : List Value} {v : Value} (h : v ∈ items) :
    v.nest ≤ nestItems items := by
  induction items with
  | nil => cases h
  | cons u items ih =>
    unfold nestItems
    rcases List.mem_cons.1 h with rfl | htail
    · omega
    · have hle := ih htail
      omega

theorem nest_le_nestMembers {members : List (String × Value)} {v : Value}
    (h : v ∈ members.map Prod.snd) : v.nest ≤ nestMembers members := by
  induction members with
  | nil => cases h
  | cons e members ih =>
    rcases e with ⟨k, u⟩
    unfold nestMembers
    rcases List.mem_cons.1 h with heq | htail
    · have hu : v = u := heq
      rw [hu]
      omega
    · have hle := ih htail
      omega

theorem nestItems_le {items : List Value} {n : Nat} (h : ∀ v ∈ items, v.nest ≤ n) : nestItems items ≤ n := by
  induction items with
  | nil => exact Nat.zero_le n
  | cons v items ih =>
    have hv := h v List.mem_cons_self
    have hitems := ih fun u hu => h u (List.mem_cons_of_mem _ hu)
    unfold nestItems
    omega

theorem nestMembers_le {members : List (String × Value)} {n : Nat} (h : ∀ e ∈ members, e.2.nest ≤ n) :
    nestMembers members ≤ n := by
  induction members with
  | nil => exact Nat.zero_le n
  | cons e members ih =>
    have he := h e List.mem_cons_self
    have hmembers := ih fun u hu => h u (List.mem_cons_of_mem _ hu)
    unfold nestMembers
    omega

/-- What is inside a value is nested less deep. -/
theorem nest_lt_of_mem_children {v u : Value} (h : u ∈ v.children) : u.nest < v.nest := by
  cases v with
  | array items => exact Nat.lt_succ_of_le (nest_le_nestItems h)
  | object members => exact Nat.lt_succ_of_le (nest_le_nestMembers h)
  | _ => cases h

/-- A value has one level more than what is inside it. -/
theorem nest_le_succ {v : Value} {n : Nat} (h : ∀ u ∈ v.children, u.nest ≤ n) : v.nest ≤ n + 1 := by
  cases v with
  | array items => exact Nat.succ_le_succ (nestItems_le h)
  | object members => exact Nat.succ_le_succ (nestMembers_le fun e he => h e.2 (List.mem_map.2 ⟨e, he, rfl⟩))
  | _ => exact Nat.zero_le _

/-! ## Distinct keys -/

/-- In each object of the value no key stands twice. -/
inductive Distinct : Value → Prop where
  | null : Distinct .null
  | bool (b : Bool) : Distinct (.bool b)
  | number (n : Number) : Distinct (.number n)
  | string (s : String) : Distinct (.string s)
  | array {items : List Value} (each : ∀ v ∈ items, Distinct v) : Distinct (.array items)
  | object {members : List (String × Value)} (keys : (Dictionary.keys members).Nodup)
      (each : ∀ e ∈ members, Distinct e.2) : Distinct (.object members)

attribute [simp] Distinct.null Distinct.bool Distinct.number Distinct.string

@[simp] theorem distinct_array {items : List Value} :
    Distinct (.array items) ↔ ∀ v ∈ items, v.Distinct := by
  constructor
  · rintro (_ | _ | _ | _ | ⟨each⟩)
    exact each
  · exact .array

@[simp] theorem distinct_object {members : List (String × Value)} :
    Distinct (.object members) ↔
      (Dictionary.keys members).Nodup ∧ ∀ e ∈ members, e.2.Distinct := by
  constructor
  · rintro (_ | _ | _ | _ | _ | ⟨keys, each⟩)
    exact ⟨keys, each⟩
  · exact fun h => .object h.1 h.2

theorem Distinct.child {v u : Value} (hv : v.Distinct) (hu : u ∈ v.children) : u.Distinct := by
  cases hv with
  | array each => exact each u hu
  | object _ each =>
    rcases List.mem_map.1 hu with ⟨e, he, rfl⟩
    exact each e he
  | _ => cases hu

/-! ## Arrays -/

/-- There is no array in the value. -/
inductive ArrayFree : Value → Prop where
  | null : ArrayFree .null
  | bool (b : Bool) : ArrayFree (.bool b)
  | number (n : Number) : ArrayFree (.number n)
  | string (s : String) : ArrayFree (.string s)
  | object {members : List (String × Value)} (each : ∀ e ∈ members, ArrayFree e.2) :
    ArrayFree (.object members)

attribute [simp] ArrayFree.null ArrayFree.bool ArrayFree.number ArrayFree.string

@[simp] theorem arrayFree_object {members : List (String × Value)} :
    ArrayFree (.object members) ↔ ∀ e ∈ members, e.2.ArrayFree := by
  constructor
  · rintro (_ | _ | _ | _ | ⟨each⟩)
    exact each
  · exact .object

theorem ArrayFree.child {v u : Value} (hv : v.ArrayFree) (hu : u ∈ v.children) : u.ArrayFree := by
  cases hv with
  | object each =>
    rcases List.mem_map.1 hu with ⟨e, he, rfl⟩
    exact each e he
  | _ => cases hu

/-! ## The order of members -/

/-- The values differ at most in the order in which members stand in objects, at any depth. Items of arrays keep their
places. -/
inductive SameUpToOrder : Value → Value → Prop where
  | same (v : Value) : SameUpToOrder v v
  | array {xs ys : List Value} (length : xs.length = ys.length)
      (each : ∀ (i : Nat) u w, xs[i]? = some u → ys[i]? = some w → SameUpToOrder u w) :
    SameUpToOrder (.array xs) (.array ys)
  | object {ms ns : List (String × Value)} (keys : (Dictionary.keys ms).Perm (Dictionary.keys ns))
      (each : ∀ k u w, (k, u) ∈ ms → (k, w) ∈ ns → SameUpToOrder u w) : SameUpToOrder (.object ms) (.object ns)

theorem sameUpToOrder_array {xs ys : List Value} (h : List.Forall₂ SameUpToOrder xs ys) :
    SameUpToOrder (.array xs) (.array ys) := by
  refine .array h.length_eq ?_
  intro i u w hu hw
  obtain ⟨hi, rfl⟩ := List.getElem?_eq_some_iff.1 hu
  obtain ⟨hj, rfl⟩ := List.getElem?_eq_some_iff.1 hw
  exact h.get hi hj

/-- The members of one object may be put into any order. -/
theorem sameUpToOrder_of_perm {ms ns : List (String × Value)} (h : ms.Perm ns)
    (hkeys : (Dictionary.keys ms).Nodup) : SameUpToOrder (.object ms) (.object ns) := by
  refine .object (h.map Prod.fst) ?_
  intro k u w hu hw
  have hu' := (Dictionary.find?_eq_some_iff hkeys).2 hu
  have hw' := (Dictionary.find?_eq_some_iff hkeys).2 (h.mem_iff.2 hw)
  cases hu'.symm.trans hw'
  exact .same u

/-- Putting members into another order makes no key stand twice. -/
theorem SameUpToOrder.distinct {v w : Value} (h : v.SameUpToOrder w) (hv : v.Distinct) : w.Distinct := by
  induction h with
  | same v => exact hv
  | @array xs ys length _ ih =>
    apply Distinct.array
    intro w hw
    obtain ⟨i, hi, rfl⟩ := List.getElem_of_mem hw
    have hx : xs[i]? = some xs[i] := List.getElem?_eq_getElem (length ▸ hi)
    exact ih i _ _ hx (List.getElem?_eq_getElem hi) (hv.child (List.mem_of_getElem? hx))
  | @object ms ns keys _ ih =>
    refine .object (keys.nodup_iff.1 (distinct_object.1 hv).1) ?_
    rintro ⟨k, w⟩ hw
    have hk : k ∈ Dictionary.keys ms := keys.mem_iff.2 (List.mem_map.2 ⟨(k, w), hw, rfl⟩)
    obtain ⟨⟨_, u⟩, hu, rfl⟩ := List.mem_map.1 hk
    exact ih _ u w hu hw ((distinct_object.1 hv).2 _ hu)

end Value

end RecordFilter.Json
