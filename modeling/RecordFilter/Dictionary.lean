namespace RecordFilter

/-! # Dictionaries in order of insertion

A dictionary is a list of keys with their values. Inserting under a key that is there replaces the value and
keeps the position, so the keys stay distinct (`nodup_keys_insert`).
-/

namespace Dictionary

variable {κ ν : Type} [DecidableEq κ]

/-- The keys, in order. -/
def keys (d : List (κ × ν)) : List κ := d.map Prod.fst

/-- The value under `k`, if `k` is there. -/
def find? (k : κ) : List (κ × ν) → Option ν
  | [] => none
  | (k', v') :: d => if k' = k then some v' else find? k d

/-- Puts `v` under `k`: in place if `k` is there, at the end otherwise. -/
def insert (k : κ) (v : ν) : List (κ × ν) → List (κ × ν)
  | [] => [(k, v)]
  | (k', v') :: d => if k' = k then (k, v) :: d else (k', v') :: insert k v d

/-- Puts pairs in, one after the other. -/
def ofList (pairs : List (κ × ν)) : List (κ × ν) := pairs.foldl (fun d (k, v) => insert k v d) []

/-- Takes `k` out and leaves the others in order. -/
def erase (k : κ) : List (κ × ν) → List (κ × ν)
  | [] => []
  | (k', v') :: d => if k' = k then d else (k', v') :: erase k d

/-- Takes `k` out and moves the last entry to its place. -/
def swapErase (k : κ) : List (κ × ν) → List (κ × ν)
  | [] => []
  | (k', v') :: d =>
    if k' = k then
      match d.getLast? with
      | none => []
      | some e => e :: d.dropLast
    else (k', v') :: swapErase k d

/-- Puts `v` under `k` at the end, wherever `k` was before. -/
def append (k : κ) (v : ν) (d : List (κ × ν)) : List (κ × ν) := insert k v (erase k d)

theorem find?_insert_self (k : κ) (v : ν) (d : List (κ × ν)) : find? k (insert k v d) = some v := by
  induction d with
  | nil => simp [insert, find?]
  | cons e d ih => grind [insert, find?]

theorem find?_insert_of_ne {k j : κ} (h : j ≠ k) (v : ν) (d : List (κ × ν)) :
    find? j (insert k v d) = find? j d := by
  induction d with
  | nil => simp [insert, find?, h.symm]
  | cons e d ih => grind [insert, find?]

theorem mem_keys_insert {k j : κ} {v : ν} {d : List (κ × ν)} :
    j ∈ keys (insert k v d) ↔ j = k ∨ j ∈ keys d := by
  induction d with
  | nil => simp [insert, keys]
  | cons e d ih =>
    obtain ⟨k', v'⟩ := e
    by_cases hk : k' = k
    · subst hk
      simp [insert, keys]
    · simp only [insert, hk, if_false, keys, List.map_cons, List.mem_cons] at ih ⊢
      grind

/-- Inserting keeps the keys distinct. -/
theorem nodup_keys_insert {k : κ} {v : ν} {d : List (κ × ν)} (h : (keys d).Nodup) :
    (keys (insert k v d)).Nodup := by
  induction d with
  | nil => simp [insert, keys]
  | cons e d ih =>
    obtain ⟨k', v'⟩ := e
    have hcons : k' ∉ keys d ∧ (keys d).Nodup := by simpa [keys] using h
    by_cases hk : k' = k
    · subst hk
      simpa [insert, keys] using h
    · have hmem : k' ∉ keys (insert k v d) := by
        rw [mem_keys_insert]
        grind
      simpa [insert, hk, keys] using And.intro hmem (ih hcons.2)

end Dictionary

end RecordFilter
