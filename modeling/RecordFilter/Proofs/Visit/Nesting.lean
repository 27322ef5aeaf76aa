import RecordFilter.Proofs.Visit.Ownership
import RecordFilter.Proofs.Visit.Results

namespace RecordFilter.Schema

/-! # How deep a record becomes

A visit moves values to siblings of the places where they were and puts defaults in, which are visited in turn. What
stands at a path is counted from the record down: the depth of the path and the levels of the value together. One step
down adds one to the first and takes one at least from the second, and a default comes in at the depth of its directive.
So no bound on the value and on the defaults is exceeded below (`Reaches.depth_add_nest_le`), and the result of a level
stays within it if those of the levels below do (`Coherent.depth_add_nest_visitLevel_le`).
-/

open Json (Value)

variable {S : Schema} {f : Path → Value → Value} {p q : Path} {u v : Value} {bound : Nat}

/-- How far defaults reach down in a record: the depth at which one is written and the levels in it. -/
def defaultReach (S : Schema) : Nat :=
  ((S.keep ++ S.add).flatMap fun e =>
    e.2.filterMap fun x => x.2.default.map fun u => x.2.path.depth + u.nest).foldl max 0

theorem depth_add_nest_le_defaultReach {d : Directive} (hd : d ∈ S.directivesAt p) (hu : d.default = some u) :
    d.path.depth + u.nest ≤ S.defaultReach := by
  apply le_foldl_max
  right
  rcases exists_mem_tables_of_mem_directivesAt hd with ⟨q, t, ht, hmem⟩
  exact List.mem_flatMap.2 ⟨(p, t), ht, List.mem_filterMap.2 ⟨(q, d), hmem, by simp [hu]⟩⟩

section Levels

variable (hbound : S.defaultReach ≤ bound) (hv : p.depth + v.nest ≤ bound)
include hbound hv

/-- What a level leaves to the levels below is within the bound. -/
theorem Reaches.depth_add_nest_le (h : S.Reaches p v q u) : q.depth + u.nest ≤ bound := by
  rcases h.given with hchild | ⟨d, hd, rfl, hu⟩
  · have hdepth := h.depth_eq
    have hnest := Value.nest_lt_of_mem_children hchild
    omega
  · have hreach := depth_add_nest_le_defaultReach hd hu
    omega

/-- The result of a level is within the bound if the results of the levels below are. -/
theorem Coherent.depth_add_nest_visitLevel_le (hS : S.Coherent)
    (hbelow : ∀ q u, q.depth + u.nest ≤ bound → q.depth + (f q u).nest ≤ bound) :
    p.depth + (S.visitLevel f p v).nest ≤ bound := by
  by_cases hpos : 0 < v.nest
  · have hchild : ∀ w ∈ (S.visitLevel f p v).children, w.nest ≤ bound - p.depth - 1 := by
      intro w hw
      rcases hS.children_visitLevel hw with rfl | ⟨q, u, hq, rfl⟩
      · exact Nat.zero_le _
      · have hdepth := hq.depth_eq
        have hle := hbelow q u (hq.depth_add_nest_le hbound hv)
        omega
    have hnest := Value.nest_le_succ hchild
    omega
  · -- without levels the value is neither an array nor an object, and stays as it is
    cases v with
    | array items => exact absurd (Nat.succ_pos _) hpos
    | object members => exact absurd (Nat.succ_pos _) hpos
    | _ => exact hv

end Levels

/-- A visit exceeds no bound on the value that it visits and on the defaults. -/
theorem Coherent.depth_add_nest_visitTo_le (hS : S.Coherent) (hbound : S.defaultReach ≤ bound) {n : Nat}
    (hv : p.depth + v.nest ≤ bound) : p.depth + (S.visitTo n p v).nest ≤ bound := by
  induction n generalizing p v with
  | zero => exact hv
  | succ n ih =>
    unfold visitTo
    split
    · exact hS.depth_add_nest_visitLevel_le hbound hv fun _ _ hle => ih hle
    · exact hv

/-- A record is deepened by defaults only. -/
theorem Coherent.nest_rewriteRecord_le (hS : S.Coherent) {r : List (String × Value)} (hr : (Value.object r).Distinct)
    (hbound : S.defaultReach ≤ bound) (hnest : (Value.object r).nest ≤ bound) :
    (Value.object (S.rewriteRecord r)).nest ≤ bound := by
  have hpos : 0 < (Value.object r).nest := Nat.succ_pos _
  have hfield : ∀ w ∈ (Value.object (S.rewriteRecord r)).children, w.nest ≤ bound - 1 := by
    rw [(rewrite_agrees_with_visit S).2 r hr]
    intro w hw
    obtain ⟨_, hmember, rfl⟩ := List.mem_map.1 hw
    obtain ⟨e, he, rfl⟩ := List.mem_map.1 hmember
    have hinside : e.2.nest < (Value.object r).nest := Value.nest_lt_of_mem_children (List.mem_map.2 ⟨e, he, rfl⟩)
    have hdepth : (Path.field e.1).depth = 1 := rfl
    have hvisit : (Path.field e.1).depth + (S.visitField e.1 e.2).nest ≤ bound :=
      hS.depth_add_nest_visitTo_le hbound (by omega)
    show (S.visitField e.1 e.2).nest ≤ bound - 1
    omega
  have hle := Value.nest_le_succ hfield
  omega

end RecordFilter.Schema
