import Mathlib

namespace RecordFilter

/-! # Outcomes

What a computation that can fail has done when it succeeds: each of its parts has succeeded. And when it fails: the first
of its parts that fails gives the error.
-/

variable {ε ε' α β : Type}

theorem bind_eq_ok {x : Except ε α} {f : α → Except ε β} {b : β} :
    x >>= f = .ok b ↔ ∃ a, x = .ok a ∧ f a = .ok b := by
  cases x with
  | error e => simp [bind, Except.bind]
  | ok a => simp [bind, Except.bind]

theorem mapError_eq_ok {x : Except ε α} {f : ε → ε'} {a : α} :
    x.mapError f = .ok a ↔ x = .ok a := by
  cases x with
  | error e => simp [Except.mapError]
  | ok a => simp [Except.mapError]

/-- A list is processed when each of its elements is, one result each. -/
theorem mapM_eq_ok {f : α → Except ε β} {as : List α} {bs : List β} :
    as.mapM f = .ok bs ↔ as.map f = bs.map .ok := by
  induction as generalizing bs with
  | nil =>
    constructor
    · intro h
      rw [List.mapM_nil] at h
      cases h
      rfl
    · intro h
      have hbs : bs = [] := by simpa using h.symm
      rw [hbs, List.mapM_nil]
      rfl
  | cons a as ih =>
    rw [List.mapM_cons, bind_eq_ok]
    constructor
    · rintro ⟨b, hb, h⟩
      rcases bind_eq_ok.1 h with ⟨bs', hbs, h⟩
      cases h
      rw [List.map_cons, List.map_cons, hb, ih.1 hbs]
    · intro h
      cases bs with
      | nil => simp at h
      | cons b bs =>
        rw [List.map_cons, List.map_cons, List.cons.injEq] at h
        exact ⟨b, h.1, bind_eq_ok.2 ⟨bs, ih.2 h.2, rfl⟩⟩

/-- Each result of a list that is processed comes from one of its elements. -/
theorem exists_of_mem_of_mapM_eq_ok {f : α → Except ε β} {as : List α} {bs : List β}
    (h : as.mapM f = .ok bs) {b : β} (hb : b ∈ bs) : ∃ a ∈ as, f a = .ok b := by
  have hmem : Except.ok b ∈ as.map f := by
    rw [mapM_eq_ok.1 h]
    exact List.mem_map.2 ⟨b, hb, rfl⟩
  exact List.mem_map.1 hmem

/-- Elements that are chosen by a test which can be read off their results are processed to the results chosen. -/
theorem mapM_filter_eq_ok {f : α → Except ε β} {as : List α} {bs : List β} (h : as.mapM f = .ok bs)
    {P : α → Bool} {Q : β → Bool} (hPQ : ∀ a ∈ as, ∀ b, f a = .ok b → P a = Q b) :
    (as.filter P).mapM f = .ok (bs.filter Q) := by
  rw [mapM_eq_ok] at h ⊢
  induction as generalizing bs with
  | nil =>
    have hbs : bs = [] := by simpa using h.symm
    rw [hbs]
    rfl
  | cons a as ih =>
    cases bs with
    | nil => simp at h
    | cons b bs =>
      rw [List.map_cons, List.map_cons, List.cons.injEq] at h
      have hhead : P a = Q b := hPQ a List.mem_cons_self b h.1
      have htail := ih h.2 fun a ha => hPQ a (List.mem_cons_of_mem _ ha)
      rw [List.filter_cons, List.filter_cons, hhead]
      split
      · rw [List.map_cons, List.map_cons, h.1, htail]
      · exact htail

/-- Where an element is processed by `f`, so it is by `g` if the result of `g` can be read off that of `f`. -/
theorem mapM_map_eq_ok {γ : Type} {f : α → Except ε β} {g : α → Except ε' γ} {k : β → γ} {as : List α}
    {bs : List β} (h : as.mapM f = .ok bs) (hfg : ∀ a ∈ as, ∀ b, f a = .ok b → g a = .ok (k b)) :
    as.mapM g = .ok (bs.map k) := by
  rw [mapM_eq_ok] at h ⊢
  induction as generalizing bs with
  | nil =>
    have hbs : bs = [] := by simpa using h.symm
    rw [hbs]
    rfl
  | cons a as ih =>
    cases bs with
    | nil => simp at h
    | cons b bs =>
      rw [List.map_cons, List.map_cons, List.cons.injEq] at h
      have hhead : g a = .ok (k b) := hfg a List.mem_cons_self b h.1
      have htail := ih h.2 fun a ha => hfg a (List.mem_cons_of_mem _ ha)
      rw [List.map_cons, hhead, htail]
      rfl

/-- Where related elements are processed alike, up to what `k` leaves of the results, so are related lists. -/
theorem exists_mapM_eq_ok {γ α' : Type} {R : α → α' → Prop} {f : α → Except ε β} {g : α' → Except ε β} {k : β → γ}
    (hfg : ∀ a a' b, R a a' → f a = .ok b → ∃ b', g a' = .ok b' ∧ k b' = k b) {as : List α} {as' : List α'}
    (hR : List.Forall₂ R as as') {bs : List β} (h : as.mapM f = .ok bs) :
    ∃ bs', as'.mapM g = .ok bs' ∧ bs'.map k = bs.map k := by
  simp only [mapM_eq_ok] at h ⊢
  induction hR generalizing bs with
  | nil =>
    have hbs : bs = [] := by simpa using h.symm
    exact ⟨[], rfl, by rw [hbs]⟩
  | @cons a a' as as' ha _ ih =>
    cases bs with
    | nil => simp at h
    | cons b bs =>
      rw [List.map_cons, List.map_cons, List.cons.injEq] at h
      obtain ⟨b', hb', hhead⟩ := hfg a a' b ha h.1
      obtain ⟨bs', hbs', htail⟩ := ih h.2
      refine ⟨b' :: bs', ?_, ?_⟩
      · rw [List.map_cons, List.map_cons, hb', hbs']
      · rw [List.map_cons, List.map_cons, hhead, htail]

/-- The last result is that of the last element. -/
theorem getLast?_of_mapM_eq_ok {f : α → Except ε β} {as : List α} {bs : List β}
    (h : as.mapM f = .ok bs) (b : β) :
    bs.getLast? = some b ↔ ∃ a, as.getLast? = some a ∧ f a = .ok b := by
  have hlast : as.getLast?.map f = bs.getLast?.map .ok := by
    rw [← List.getLast?_map, ← List.getLast?_map, mapM_eq_ok.1 h]
  constructor
  · intro hb
    rw [hb] at hlast
    exact Option.map_eq_some_iff.1 hlast
  · rintro ⟨a, ha, hab⟩
    rw [ha, Option.map_some, hab] at hlast
    obtain ⟨b', hb', heq⟩ := Option.map_eq_some_iff.1 hlast.symm
    cases heq
    exact hb'

/-! ## Failures -/

/-- The error of a computation, if it fails. -/
def failure? : Except ε α → Option ε
  | .error e => some e
  | .ok _ => none

theorem failure?_eq_some {x : Except ε α} {e : ε} : failure? x = some e ↔ x = .error e := by
  cases x with
  | error e' => simp [failure?]
  | ok a => simp [failure?]

theorem failure?_eq_none {x : Except ε α} : failure? x = none ↔ ∃ a, x = .ok a := by
  cases x with
  | error e => simp [failure?]
  | ok a => simp [failure?]

theorem bind_eq_error {x : Except ε α} {f : α → Except ε β} {e : ε} :
    x >>= f = .error e ↔ x = .error e ∨ ∃ a, x = .ok a ∧ f a = .error e := by
  cases x with
  | error e' => simp [bind, Except.bind]
  | ok a => simp [bind, Except.bind]

theorem failure?_pure (a : α) : failure? (pure a : Except ε α) = none := rfl

/-- Of two parts of a computation the first one decides which error it is. -/
theorem failure?_bind {x : Except ε α} {f : α → Except ε β} {later : Option ε}
    (h : ∀ a, failure? (f a) = later) : failure? (x >>= f) = (failure? x).or later := by
  cases x with
  | error e => rfl
  | ok a => exact h a

/-- A list fails with the error of the first of its elements that fails. -/
theorem failure?_mapM (f : α → Except ε β) (as : List α) :
    failure? (as.mapM f) = as.findSome? fun a => failure? (f a) := by
  induction as with
  | nil => rfl
  | cons a as ih =>
    rw [List.mapM_cons, List.findSome?_cons]
    cases f a with
    | error e => rfl
    | ok b =>
      show failure? (as.mapM f >>= fun bs => pure (b :: bs)) = _
      rw [failure?_bind fun bs => failure?_pure (b :: bs), Option.or_none, ih]
      rfl

/-- Putting in one result after the other comes to the same as putting them in when all are there, if that cannot
fail. -/
theorem foldlM_eq_map_mapM {γ : Type} {f : α → Except ε β} {put? : γ → β → Except ε γ} {put : γ → β → γ}
    {as : List α} (h : ∀ a ∈ as, ∀ b, f a = .ok b → ∀ t, put? t b = .ok (put t b)) (t : γ) :
    as.foldlM (fun t a => do put? t (← f a)) t = (as.mapM f).map fun bs => bs.foldl put t := by
  induction as generalizing t with
  | nil => rfl
  | cons a as ih =>
    rw [List.foldlM_cons, List.mapM_cons]
    cases ha : f a with
    | error e => rfl
    | ok b =>
      have hput : put? t b = .ok (put t b) := h a List.mem_cons_self b ha t
      show (put? t b >>= fun t => as.foldlM (fun t a => do put? t (← f a)) t) = _
      rw [hput]
      show as.foldlM (fun t a => do put? t (← f a)) (put t b) = _
      rw [ih fun a ha => h a (List.mem_cons_of_mem _ ha)]
      cases as.mapM f with
      | error e => rfl
      | ok bs => rfl

end RecordFilter
