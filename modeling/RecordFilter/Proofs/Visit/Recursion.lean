import RecordFilter.Proofs.Visit.Level

namespace RecordFilter.Schema

/-! # Visits without a bound

A visit counts the levels that it may still go down. With a coherent schema the count never cuts anything off: any count
that reaches below the deepest entered path gives the same result (`visitTo_eq_visit`). So a visit is one level over
visits (`visit_eq`), and the count does not occur in what is proved about it.
-/

open Json (Value)

variable {S : Schema} {p : Path}

theorem le_foldl_max {l : List Nat} {n m : Nat} (h : n ≤ m ∨ n ∈ l) : n ≤ l.foldl max m := by
  induction l generalizing m with
  | nil => simpa using h
  | cons k l ih =>
    apply ih
    rcases h with hm | hmem
    · left
      omega
    · rcases List.mem_cons.1 hmem with rfl | htail
      · left
        omega
      · exact Or.inr htail

theorem depth_le_of_visits (h : S.visits p) : p.depth ≤ S.depth := by
  apply le_foldl_max
  right
  exact List.mem_map.2 ⟨p, by simpa [visits] using h, rfl⟩

/-- Below the deepest entered path nothing is entered. -/
theorem not_visits_of_depth_lt (h : S.depth < p.depth) : S.visits p = false := by
  cases hp : S.visits p with
  | false => rfl
  | true =>
    have hdepth := depth_le_of_visits hp
    omega

theorem visitTo_of_not_visits {n : Nat} (h : S.visits p = false) (v : Value) :
    S.visitTo n p v = v := by
  cases n with
  | zero => rfl
  | succ n => simp [visitTo, h]

theorem visit_of_not_visits (h : S.visits p = false) (v : Value) : S.visit p v = v :=
  visitTo_of_not_visits h v

/-- Counts that reach below the deepest entered path all give the same. -/
theorem Coherent.visitTo_eq_visitTo (hS : S.Coherent) {n m : Nat} (hn : S.depth < n + p.depth)
    (hm : S.depth < m + p.depth) (v : Value) : S.visitTo n p v = S.visitTo m p v := by
  induction n generalizing m p v with
  | zero =>
    -- no levels are left, and `p` is already below the deepest entered path
    have hp : S.visits p = false := not_visits_of_depth_lt (by omega)
    rw [visitTo_of_not_visits hp, visitTo_of_not_visits hp]
  | succ n ih =>
    cases hp : S.visits p with
    | false => rw [visitTo_of_not_visits hp, visitTo_of_not_visits hp]
    | true =>
      have hdepth := depth_le_of_visits hp
      cases m with
      | zero => omega
      | succ m =>
        simp only [visitTo, hp, if_true]
        apply hS.visitLevel_congr
        intro q u hq
        have hqdepth := hq.depth_eq
        exact ih (by omega) (by omega) u

/-- A visit may go down any number of levels that is enough. -/
theorem Coherent.visitTo_eq_visit (hS : S.Coherent) {n : Nat} (hn : S.depth < n + p.depth)
    (v : Value) : S.visitTo n p v = S.visit p v :=
  hS.visitTo_eq_visitTo hn (by omega) v

/-- A visit of an entered path is one level over visits. -/
theorem Coherent.visit_of_visits (hS : S.Coherent) (hp : S.visits p) (v : Value) :
    S.visit p v = S.visitLevel S.visit p v := by
  have hdepth := depth_le_of_visits hp
  have hlevels : S.depth + 1 - p.depth = S.depth - p.depth + 1 := by omega
  rw [visit, hlevels, visitTo, if_pos hp]
  apply hS.visitLevel_congr
  intro q u hq
  have hqdepth := hq.depth_eq
  exact hS.visitTo_eq_visit (by omega) u

theorem Coherent.visit_array (hS : S.Coherent) (hp : S.visits p) (items : List Value) :
    S.visit p (.array items) = .array (S.visitItems S.visit p items) :=
  (hS.visit_of_visits hp _).trans (visitLevel_array items)

theorem Coherent.visit_object (hS : S.Coherent) (hp : S.visits p) (members : List (String × Value)) :
    S.visit p (.object members) = .object (S.visitMembers S.visit p members) :=
  (hS.visit_of_visits hp _).trans (visitLevel_object members)

/-- What a visit is, whatever the depth of the value. -/
theorem Coherent.visit_eq (hS : S.Coherent) (p : Path) (v : Value) :
    S.visit p v = if S.visits p then S.visitLevel S.visit p v else v := by
  split
  · next hp => exact hS.visit_of_visits hp v
  · next hp => exact visit_of_not_visits (by simpa using hp) v

end RecordFilter.Schema
