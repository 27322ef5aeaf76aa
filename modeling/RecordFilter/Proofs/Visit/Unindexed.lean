import RecordFilter.Proofs.Visit.Restriction

namespace RecordFilter

/-! # Names without positions

Where no name has a position in it, no item of an array is told from the others: all of them are visited at the
wildcard, and all of them are dropped or none is.
-/

open Json (Value)

/-- No name of the configuration has a position in it. -/
def Config.Unindexed (c : Config) : Prop := ∀ n ∈ c.names, ∀ i, Segment.index i ∉ n.segments

variable {c : Config}

theorem Config.Unindexed.leads_index (hc : c.Unindexed) (q : Path) (i : Nat) : c.leads (q.index i) = false := by
  rw [leads, List.any_eq_false]
  intro n hn hprefix
  have hmem : Segment.index i ∈ (q.index i).segments := by simp [Path.index, Path.segments]
  exact hc n hn i ((List.isPrefixOf_iff_prefix.1 hprefix).subset hmem)

theorem Config.Unindexed.dropsPath_index (hc : c.Unindexed) (q : Path) (i : Nat) :
    c.dropsPath (q.index i) = false := by
  rw [dropsPath, List.contains_eq_mem, decide_eq_false_iff_not]
  intro hmem
  have hname : q.index i ∈ c.names := List.mem_append_right _ hmem
  exact hc _ hname i (by simp [Path.index, Path.segments])

namespace Schema

variable {S : Schema} {f : Path → Value → Value} {p : Path}

theorem itemPath_eq_wildcard (h : compile c = .ok S) (hc : c.Unindexed) (i : Nat) : S.itemPath p i = p.wildcard := by
  rw [itemPath_eq_stepPath h, Config.stepPath, hc.leads_index]
  rfl

theorem dropsItem_eq_dropsPath_wildcard (h : compile c = .ok S) (hc : c.Unindexed) (i : Nat) :
    dropsItem p ((S.dropAt p).getD []) i = c.dropsPath p.wildcard := by
  rw [dropsItem_eq_dropsStep h, Config.dropsStep, hc.dropsPath_index, Bool.false_or]

/-- Without positions all items are passed on, each at the wildcard, or none. -/
theorem passItems_of_unindexed (h : compile c = .ok S) (hc : c.Unindexed) (items : List Value) :
    S.passItems f p ((S.dropAt p).getD []) items =
      if c.dropsPath p.wildcard then [] else items.map (f p.wildcard) := by
  simp only [passItems, dropsItem_eq_dropsPath_wildcard h hc, itemPath_eq_wildcard h hc]
  cases c.dropsPath p.wildcard with
  | true => simp
  | false =>
    have hall : items.zipIdx.filter (fun _ => true) = items.zipIdx :=
      List.filter_eq_self.2 fun _ _ => rfl
    have hfst : (items.zipIdx.map Prod.fst).map (f p.wildcard) = items.map (f p.wildcard) := by
      rw [List.zipIdx_map_fst]
    rw [List.map_map] at hfst
    simp only [Bool.not_false, hall]
    exact hfst

end Schema

end RecordFilter
