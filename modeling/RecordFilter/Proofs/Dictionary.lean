import RecordFilter.Dictionary
import Mathlib.Data.List.Dedup
import Mathlib.Data.List.Induction

namespace RecordFilter.Dictionary

/-! # Looking up and taking out

Where the keys are distinct, the order of the entries does not matter to a look-up (`find?_eq_of_perm`). So taking an
entry out by moving the last one to its place is as good as taking it out and leaving the others in order. Of entries
put in one after the other the first decides where a key stands (`keys_ofList`), and the last what stands under it
(`find?_ofList`). Of entries put at the end one after the other the last decides both (`foldl_append_eq`,
`keys_foldl_append`, `find?_foldl_append`), and entries under other keys are not touched (`filter_foldl_append`).
-/

variable {κ ν : Type} [DecidableEq κ]

/-! ## Look-up -/

theorem mem_of_find? {k : κ} {v : ν} {d : List (κ × ν)} (h : find? k d = some v) : (k, v) ∈ d := by
  induction d with
  | nil => cases h
  | cons e d ih =>
    rcases e with ⟨k', v'⟩
    unfold find? at h
    split at h
    · next hk =>
      cases h
      rw [hk]
      exact List.mem_cons_self
    · exact List.mem_cons_of_mem _ (ih h)

theorem find?_eq_none_iff {k : κ} {d : List (κ × ν)} : find? k d = none ↔ k ∉ keys d := by
  induction d with
  | nil => simp [find?, keys]
  | cons e d ih =>
    rcases e with ⟨k', v'⟩
    by_cases hk : k' = k
    · simp [find?, keys, hk]
    · have hk' : k ≠ k' := fun h => hk h.symm
      simpa [find?, keys, hk, hk'] using ih

/-- Where the keys are distinct, the value under a key is the one that stands with it. -/
theorem find?_eq_some_iff {k : κ} {v : ν} {d : List (κ × ν)} (hd : (keys d).Nodup) :
    find? k d = some v ↔ (k, v) ∈ d := by
  constructor
  · exact mem_of_find?
  · intro h
    induction d with
    | nil => cases h
    | cons e d ih =>
      rcases e with ⟨k', v'⟩
      have hcons : k' ∉ keys d ∧ (keys d).Nodup := by simpa [keys] using hd
      rcases List.mem_cons.1 h with heq | htail
      · cases heq
        simp [find?]
      · -- a key that stands further on is not the first one
        have hne : k' ≠ k := by
          intro hk
          exact hcons.1 (hk ▸ List.mem_map.2 ⟨(k, v), htail, rfl⟩)
        simpa [find?, hne] using ih hcons.2 htail

/-- Entries with distinct keys are looked up alike in any order. -/
theorem find?_eq_of_perm {k : κ} {d e : List (κ × ν)} (h : d.Perm e) (hd : (keys d).Nodup) :
    find? k d = find? k e := by
  have he : (keys e).Nodup := (h.map Prod.fst).nodup_iff.1 hd
  cases hfind : find? k d with
  | some v =>
    have hmem : (k, v) ∈ e := h.mem_iff.1 (mem_of_find? hfind)
    exact ((find?_eq_some_iff he).2 hmem).symm
  | none =>
    have hout : k ∉ keys e := by
      intro hk
      exact find?_eq_none_iff.1 hfind ((h.map Prod.fst).mem_iff.2 hk)
    exact (find?_eq_none_iff.2 hout).symm

/-- Choosing entries by their keys leaves what stands under the keys chosen, and nothing else. -/
theorem find?_filter (P : κ → Bool) (k : κ) (d : List (κ × ν)) :
    find? k (d.filter fun e => P e.1) = if P k then find? k d else none := by
  induction d with
  | nil => simp [find?]
  | cons e d ih =>
    rcases e with ⟨k', v'⟩
    rw [List.filter_cons]
    by_cases hk : k' = k
    · subst hk
      cases hP : P k' with
      | true => simp [find?]
      | false => simpa [hP] using ih
    · cases hP : P k' with
      | true => simpa [find?, hk] using ih
      | false => simpa [find?, hk] using ih

theorem find?_append (k : κ) (d e : List (κ × ν)) : find? k (d ++ e) = (find? k d).or (find? k e) := by
  induction d with
  | nil => rfl
  | cons pair d ih =>
    rcases pair with ⟨k', v'⟩
    by_cases hk : k' = k
    · simp [find?, hk]
    · simpa [find?, hk] using ih

/-- What is made of each value under its key is found under that key. -/
theorem find?_map {ν' : Type} (g : κ → ν → ν') (k : κ) (d : List (κ × ν)) :
    find? k (d.map fun e => (e.1, g e.1 e.2)) = (find? k d).map (g k) := by
  induction d with
  | nil => rfl
  | cons e d ih =>
    rcases e with ⟨k', v'⟩
    by_cases hk : k' = k
    · simp [find?, hk]
    · simpa [find?, hk] using ih

/-! ## Taking out -/

theorem find?_erase_of_ne {j k : κ} (h : j ≠ k) (d : List (κ × ν)) :
    find? j (erase k d) = find? j d := by
  induction d with
  | nil => rfl
  | cons e d ih => grind [erase, find?]

theorem erase_sublist (k : κ) (d : List (κ × ν)) : (erase k d).Sublist d := by
  induction d with
  | nil => exact List.Sublist.slnil
  | cons e d ih =>
    rcases e with ⟨k', v'⟩
    unfold erase
    split
    · exact List.sublist_cons_self _ _
    · exact ih.cons_cons _

theorem nodup_keys_erase {k : κ} {d : List (κ × ν)} (h : (keys d).Nodup) :
    (keys (erase k d)).Nodup :=
  ((erase_sublist k d).map Prod.fst).nodup h

/-- The last entry only moves: both ways of taking out leave the same entries. -/
theorem swapErase_perm_erase (k : κ) (d : List (κ × ν)) : (swapErase k d).Perm (erase k d) := by
  induction d with
  | nil => exact List.Perm.refl _
  | cons e d ih =>
    rcases e with ⟨k', v'⟩
    unfold swapErase erase
    split
    · cases hlast : d.getLast? with
      | none =>
        have hd : d = [] := List.getLast?_eq_none_iff.1 hlast
        rw [hd]
      | some e =>
        -- the last entry comes to stand in front of those that it stood behind
        rcases List.getLast?_eq_some_iff.1 hlast with ⟨d', rfl⟩
        simpa using (List.perm_append_singleton e d').symm
    · exact ih.cons _

theorem nodup_keys_swapErase {k : κ} {d : List (κ × ν)} (h : (keys d).Nodup) :
    (keys (swapErase k d)).Nodup :=
  ((swapErase_perm_erase k d).map Prod.fst).nodup_iff.2 (nodup_keys_erase h)

theorem find?_swapErase_of_ne {j k : κ} (h : j ≠ k) {d : List (κ × ν)} (hd : (keys d).Nodup) :
    find? j (swapErase k d) = find? j d := by
  calc find? j (swapErase k d)
      = find? j (erase k d) := find?_eq_of_perm (swapErase_perm_erase k d) (nodup_keys_swapErase hd)
    _ = find? j d := find?_erase_of_ne h d

theorem filter_erase {P : κ → Bool} {k : κ} (hk : P k = false) (d : List (κ × ν)) :
    (erase k d).filter (fun e => P e.1) = d.filter fun e => P e.1 := by
  induction d with
  | nil => rfl
  | cons e d ih =>
    rcases e with ⟨k', v'⟩
    unfold erase
    split
    · next heq => simp [heq, hk]
    · simp only [List.filter_cons, ih]

/-! ## Putting in -/

theorem filter_insert {P : κ → Bool} {k : κ} (hk : P k = false) (v : ν) (d : List (κ × ν)) :
    (insert k v d).filter (fun e => P e.1) = d.filter fun e => P e.1 := by
  induction d with
  | nil => simp [insert, hk]
  | cons e d ih =>
    rcases e with ⟨k', v'⟩
    unfold insert
    split
    · next heq => simp [heq, hk]
    · simp only [List.filter_cons, ih]

theorem mem_of_mem_insert {e : κ × ν} {k : κ} {v : ν} {d : List (κ × ν)} (h : e ∈ insert k v d) :
    e = (k, v) ∨ e ∈ d := by
  induction d with
  | nil => exact Or.inl (List.mem_singleton.1 h)
  | cons e' d ih =>
    rcases e' with ⟨k', v'⟩
    unfold insert at h
    split at h
    · rcases List.mem_cons.1 h with hhead | htail
      · exact Or.inl hhead
      · exact Or.inr (List.mem_cons_of_mem _ htail)
    · rcases List.mem_cons.1 h with hhead | htail
      · exact Or.inr (hhead ▸ List.mem_cons_self)
      · rcases ih htail with hnew | hold
        · exact Or.inl hnew
        · exact Or.inr (List.mem_cons_of_mem _ hold)

/-- What stands in a dictionary was put in. -/
theorem mem_of_mem_ofList {e : κ × ν} {pairs : List (κ × ν)} (h : e ∈ ofList pairs) :
    e ∈ pairs := by
  have hfold : ∀ d : List (κ × ν),
      e ∈ pairs.foldl (fun d x => insert x.1 x.2 d) d → e ∈ d ∨ e ∈ pairs := by
    clear h
    -- entries are put into what is there already, so the induction is for every such dictionary
    induction pairs with
    | nil => exact fun d hd => Or.inl hd
    | cons pair pairs ih =>
      intro d hd
      rcases ih _ hd with hins | hpairs
      · rcases mem_of_mem_insert hins with hnew | hold
        · exact Or.inr (hnew ▸ List.mem_cons_self)
        · exact Or.inl hold
      · exact Or.inr (List.mem_cons_of_mem _ hpairs)
  rcases hfold [] h with hnil | hpairs
  · cases hnil
  · exact hpairs

/-- However often a key is put in, it stands there once. -/
theorem nodup_keys_ofList (pairs : List (κ × ν)) : (keys (ofList pairs)).Nodup := by
  have hfold : ∀ d : List (κ × ν), (keys d).Nodup →
      (keys (pairs.foldl (fun d e => insert e.1 e.2 d) d)).Nodup := by
    induction pairs with
    | nil => exact fun d hd => hd
    | cons pair pairs ih => exact fun d hd => ih _ (nodup_keys_insert hd)
  exact hfold [] List.nodup_nil

/-- A key that is there keeps its position, and a new one goes to the end. -/
theorem keys_insert (k : κ) (v : ν) (d : List (κ × ν)) :
    keys (insert k v d) = if k ∈ keys d then keys d else keys d ++ [k] := by
  induction d with
  | nil => simp [insert, keys]
  | cons e d ih =>
    rcases e with ⟨k', v'⟩
    by_cases hk : k' = k
    · simp [insert, keys, hk]
    · have hcons : keys (insert k v ((k', v') :: d)) = k' :: keys (insert k v d) := by
        simp [insert, keys, hk]
      have hmem : k ∈ keys ((k', v') :: d) ↔ k ∈ keys d := by
        have hk' : k ≠ k' := fun h => hk h.symm
        simp [keys, hk']
      rw [hcons, ih]
      simp only [hmem]
      split
      · rfl
      · rfl

theorem ofList_concat (pairs : List (κ × ν)) (k : κ) (v : ν) :
    ofList (pairs ++ [(k, v)]) = insert k v (ofList pairs) := by
  simp [ofList]

/-- Each key stands where it was put in first. -/
theorem keys_ofList (pairs : List (κ × ν)) : keys (ofList pairs) = (keys pairs).eraseDups := by
  induction pairs using List.reverseRecOn with
  | nil => rfl
  | append_singleton pairs e ih =>
    rcases e with ⟨k, v⟩
    have hkeys : keys (pairs ++ [(k, v)]) = keys pairs ++ [k] := by simp [keys]
    rw [ofList_concat, keys_insert, ih, hkeys, List.eraseDups_append]
    by_cases hk : k ∈ keys pairs
    · simp [hk, List.removeAll]
    · simp [hk, List.removeAll, List.eraseDups_cons]

/-- Under each key stands what was put in last. -/
theorem find?_ofList (k : κ) (pairs : List (κ × ν)) :
    find? k (ofList pairs) = (pairs.filter fun e => e.1 = k).getLast?.map Prod.snd := by
  induction pairs using List.reverseRecOn with
  | nil => rfl
  | append_singleton pairs e ih =>
    rcases e with ⟨j, v⟩
    rw [ofList_concat, List.filter_append]
    by_cases hj : j = k
    · subst hj
      simp [find?_insert_self]
    · have hk : k ≠ j := fun h => hj h.symm
      simp [find?_insert_of_ne hk, ih, hj]

/-- The keys of a dictionary are those that were put in. -/
theorem mem_keys_ofList {k : κ} {pairs : List (κ × ν)} :
    k ∈ keys (ofList pairs) ↔ k ∈ keys pairs := by
  rw [keys_ofList, List.mem_eraseDups]

theorem ofList_ne_nil {pairs : List (κ × ν)} (h : pairs ≠ []) : ofList pairs ≠ [] := by
  rcases List.exists_mem_of_ne_nil _ h with ⟨e, he⟩
  have hkey : e.1 ∈ keys (ofList pairs) := mem_keys_ofList.2 (List.mem_map.2 ⟨e, he, rfl⟩)
  intro hnil
  rw [hnil] at hkey
  cases hkey

theorem insert_of_notMem {k : κ} (v : ν) {d : List (κ × ν)} (h : k ∉ keys d) : insert k v d = d ++ [(k, v)] := by
  induction d with
  | nil => rfl
  | cons e d ih =>
    rcases e with ⟨k', v'⟩
    have hcons : k ≠ k' ∧ k ∉ keys d := by simpa [keys] using h
    have hk : k' ≠ k := fun heq => hcons.1 heq.symm
    rw [insert, if_neg hk, ih hcons.2]
    rfl

/-- Entries with distinct keys are put in as they stand. -/
theorem ofList_eq_self {pairs : List (κ × ν)} (h : (keys pairs).Nodup) : ofList pairs = pairs := by
  induction pairs using List.reverseRecOn with
  | nil => rfl
  | append_singleton pairs e ih =>
    rcases e with ⟨k, v⟩
    have hkeys : (keys pairs ++ [k]).Nodup := by simpa [keys] using h
    have hsplit := List.nodup_append.1 hkeys
    have hnew : k ∉ keys pairs := fun hk => hsplit.2.2 k hk k (List.mem_singleton.2 rfl) rfl
    rw [ofList_concat, ih hsplit.1, insert_of_notMem v hnew]

/-! ## New keys and new values -/

section Renaming

variable {κ' ν' : Type} [DecidableEq κ'] {g : κ → κ'} (hg : Function.Injective g) (f : ν → ν')
include hg

/-- Where different keys stay different, what stood under a key stands under the new one. -/
theorem find?_map_keys (k : κ) (d : List (κ × ν)) : find? (g k) (d.map (Prod.map g f)) = (find? k d).map f := by
  induction d with
  | nil => rfl
  | cons e d ih =>
    rcases e with ⟨k', v'⟩
    by_cases hk : k' = k
    · simp [find?, hk]
    · have hgk : g k' ≠ g k := fun h => hk (hg h)
      simpa [find?, hk, hgk] using ih

/-- Putting in and giving new keys can be done in either order. -/
theorem map_insert (k : κ) (v : ν) (d : List (κ × ν)) :
    (insert k v d).map (Prod.map g f) = insert (g k) (f v) (d.map (Prod.map g f)) := by
  induction d with
  | nil => rfl
  | cons e d ih =>
    rcases e with ⟨k', v'⟩
    by_cases hk : k' = k
    · simp [insert, hk]
    · have hgk : g k' ≠ g k := fun h => hk (hg h)
      simp [insert, hk, hgk, ih]

theorem map_ofList (pairs : List (κ × ν)) : (ofList pairs).map (Prod.map g f) = ofList (pairs.map (Prod.map g f)) := by
  induction pairs using List.reverseRecOn with
  | nil => rfl
  | append_singleton pairs e ih =>
    rcases e with ⟨k, v⟩
    rw [ofList_concat, map_insert hg, ih, List.map_append, List.map_singleton, Prod.map_apply, ofList_concat]

end Renaming

/-! ## Moving to the end -/

/-- Where the keys are distinct, at most one entry is taken out. -/
theorem erase_eq_filter {k : κ} {d : List (κ × ν)} (h : (keys d).Nodup) :
    erase k d = d.filter fun e => e.1 ≠ k := by
  induction d with
  | nil => rfl
  | cons e d ih =>
    rcases e with ⟨k', v'⟩
    have hcons : k' ∉ keys d ∧ (keys d).Nodup := by simpa [keys] using h
    rw [erase, List.filter_cons]
    by_cases hk : k' = k
    · -- this was the only entry of the key, so of the rest all stays
      have hkeep : ∀ e ∈ d, decide (e.1 ≠ k) := by
        intro e he
        have hne : e.1 ≠ k := by
          rintro rfl
          exact hcons.1 (hk ▸ List.mem_map.2 ⟨e, he, rfl⟩)
        exact decide_eq_true hne
      simp only [hk, if_true, ne_eq, not_true_eq_false, decide_false, Bool.false_eq_true, if_false]
      exact (List.filter_eq_self.2 hkeep).symm
    · simp [hk, ih hcons.2]

/-- What is put at the end stands there, and the rest as before. -/
theorem append_eq {k : κ} (v : ν) {d : List (κ × ν)} (h : (keys d).Nodup) :
    append k v d = (d.filter fun e => e.1 ≠ k) ++ [(k, v)] := by
  have hout : k ∉ keys (d.filter fun e => e.1 ≠ k) := by simp [keys]
  rw [append, erase_eq_filter h, insert_of_notMem v hout]

theorem nodup_keys_append {k : κ} {v : ν} {d : List (κ × ν)} (h : (keys d).Nodup) :
    (keys (append k v d)).Nodup :=
  nodup_keys_insert (nodup_keys_erase h)

/-- The entries of a list, but for those whose keys come again. -/
def lasts : List (κ × ν) → List (κ × ν)
  | [] => []
  | e :: es => if e.1 ∈ keys es then lasts es else e :: lasts es

theorem lasts_eq_self {es : List (κ × ν)} (h : (keys es).Nodup) : lasts es = es := by
  induction es with
  | nil => rfl
  | cons e es ih =>
    have hcons : e.1 ∉ keys es ∧ (keys es).Nodup := by simpa [keys] using h
    rw [lasts, if_neg hcons.1, ih hcons.2]

/-- The keys that are left stand in the order in which they come last. -/
theorem keys_lasts (es : List (κ × ν)) : keys (lasts es) = (keys es).dedup := by
  induction es with
  | nil => rfl
  | cons e es ih =>
    have hcons : keys (e :: es) = e.1 :: keys es := rfl
    rw [lasts, hcons]
    by_cases he : e.1 ∈ keys es
    · rw [if_pos he, ih, List.dedup_cons_of_mem he]
    · rw [if_neg he, List.dedup_cons_of_notMem he, ← ih]
      rfl

/-- Of entries put at the end in turn, the last ones stand there, behind what has none of their keys. -/
theorem foldl_append_eq {d : List (κ × ν)} (hd : (keys d).Nodup) (es : List (κ × ν)) :
    es.foldl (fun d (k, v) => append k v d) d = (d.filter fun e => !(keys es).contains e.1) ++ lasts es := by
  induction es generalizing d with
  | nil =>
    rw [lasts, List.append_nil]
    exact (List.filter_eq_self.2 fun _ _ => rfl).symm
  | cons e es ih =>
    rcases e with ⟨k, v⟩
    have hrest : (d.filter fun e => e.1 ≠ k).filter (fun e => !(keys es).contains e.1) =
        d.filter fun e => !(keys ((k, v) :: es)).contains e.1 := by
      rw [List.filter_filter]
      apply List.filter_congr
      intro e _
      have hkeys : keys ((k, v) :: es) = k :: keys es := rfl
      by_cases hk : e.1 = k
      · simp [hkeys, hk]
      · simp [hkeys, hk]
    rw [List.foldl_cons, ih (nodup_keys_append hd), append_eq v hd, List.filter_append, hrest, List.append_assoc, lasts]
    -- the first entry is left only if its key does not come again
    by_cases hk : k ∈ keys es
    · simp [hk]
    · simp [hk]

/-- The keys put at the end stand in the order in which they were put there last. -/
theorem keys_foldl_append {d : List (κ × ν)} (hd : (keys d).Nodup) (es : List (κ × ν)) :
    keys (es.foldl (fun d (k, v) => append k v d) d) =
      ((keys d).filter fun k => !(keys es).contains k) ++ (keys es).dedup := by
  rw [foldl_append_eq hd, ← keys_lasts]
  simp only [keys, List.map_append, List.filter_map]
  rfl

/-- What was put at the end last is found, or else what was there before. -/
theorem find?_foldl_append (k : κ) (d es : List (κ × ν)) :
    find? k (es.foldl (fun d (k, v) => append k v d) d) =
      ((es.filter fun e => e.1 = k).getLast?.map Prod.snd).or (find? k d) := by
  induction es using List.reverseRecOn with
  | nil => rfl
  | append_singleton es e ih =>
    rcases e with ⟨j, v⟩
    rw [List.foldl_append, List.filter_append]
    show find? k (append j v (es.foldl (fun d (k, v) => append k v d) d)) = _
    by_cases hj : j = k
    · subst hj
      simp [append, find?_insert_self]
    · have hk : k ≠ j := fun h => hj h.symm
      rw [append, find?_insert_of_ne hk, find?_erase_of_ne hk, ih]
      simp [hj]

/-- Entries under keys that are not chosen leave those that are in their order. -/
theorem filter_foldl_append {P : κ → Bool} (d : List (κ × ν)) {es : List (κ × ν)} (h : ∀ e ∈ es, P e.1 = false) :
    (es.foldl (fun d (k, v) => append k v d) d).filter (fun e => P e.1) = d.filter fun e => P e.1 := by
  induction es generalizing d with
  | nil => rfl
  | cons e es ih =>
    rcases e with ⟨k, v⟩
    have hk : P k = false := h (k, v) List.mem_cons_self
    rw [List.foldl_cons, ih _ fun e he => h e (List.mem_cons_of_mem _ he)]
    show (insert k v (erase k d)).filter (fun e => P e.1) = _
    rw [filter_insert hk, filter_erase hk]

theorem nodup_keys_foldl_append {d : List (κ × ν)} (hd : (keys d).Nodup) (es : List (κ × ν)) :
    (keys (es.foldl (fun d (k, v) => append k v d) d)).Nodup := by
  induction es generalizing d with
  | nil => exact hd
  | cons e es ih => exact ih (nodup_keys_append hd)

/-- What stands after entries were put at the end was there before, or is one of these. -/
theorem mem_of_mem_foldl_append {e : κ × ν} {d es : List (κ × ν)}
    (h : e ∈ es.foldl (fun d (k, v) => append k v d) d) : e ∈ d ∨ e ∈ es := by
  induction es generalizing d with
  | nil => exact Or.inl h
  | cons pair es ih =>
    rcases ih h with happend | hes
    · rcases mem_of_mem_insert happend with hnew | hold
      · exact Or.inr (hnew ▸ List.mem_cons_self)
      · exact Or.inl ((erase_sublist _ d).subset hold)
    · exact Or.inr (List.mem_cons_of_mem _ hes)

end RecordFilter.Dictionary
