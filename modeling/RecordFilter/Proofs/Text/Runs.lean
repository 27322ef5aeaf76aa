import RecordFilter.Text.Blank
import Mathlib.Data.List.TakeWhile

namespace RecordFilter.Text

/-! # Runs of characters

A run of characters of one kind ends where a character of another kind follows. Blanks are such a kind.
-/

/-- A run of characters of a kind, up to one of another kind, is what `takeWhile` takes. -/
theorem takeWhile_dropWhile_append {p : Char → Bool} {n after : List Char} (hn : ∀ c ∈ n, p c)
    (hafter : ∀ c, after.head? = some c → p c = false) :
    (n ++ after).takeWhile p = n ∧ (n ++ after).dropWhile p = after := by
  rw [List.takeWhile_append_of_pos hn, List.dropWhile_append_of_pos hn]
  cases after with
  | nil => simp
  | cons c after =>
    have hc : p c = false := hafter c rfl
    simp [hc]

/-- What trimming takes away are blanks at the two ends. -/
theorem exists_eq_append_trim (s : List Char) :
    ∃ before after, s = before ++ trim s ++ after ∧ (∀ c ∈ before, isBlank c) ∧ ∀ c ∈ after, isBlank c := by
  let rest := s.dropWhile isBlank
  refine ⟨s.takeWhile isBlank, (rest.reverse.takeWhile isBlank).reverse, ?_, fun c => List.mem_takeWhile_imp, ?_⟩
  · -- the part that is dropped at the end is taken off the reversed text
    have hend : trim s ++ (rest.reverse.takeWhile isBlank).reverse = rest := by
      rw [trim, ← List.reverse_append, List.takeWhile_append_dropWhile, List.reverse_reverse]
    rw [List.append_assoc, hend, List.takeWhile_append_dropWhile]
  · intro c hc
    exact List.mem_takeWhile_imp (List.mem_reverse.1 hc)

/-- Blanks around a text that itself has none at its ends are taken away, and nothing else. -/
theorem trim_append {before s after : List Char} (hbefore : ∀ c ∈ before, isBlank c) (hafter : ∀ c ∈ after, isBlank c)
    (hfirst : ∀ c, s.head? = some c → isBlank c = false) (hlast : ∀ c, s.getLast? = some c → isBlank c = false) :
    trim (before ++ s ++ after) = s := by
  cases s with
  | nil =>
    have hall : ∀ c ∈ before ++ [] ++ after, isBlank c := by
      intro c hc
      rw [List.append_nil, List.mem_append] at hc
      exact hc.elim (hbefore c) (hafter c)
    rw [trim, List.dropWhile_eq_nil_iff.2 hall]
    rfl
  | cons d s =>
    have hstart : (before ++ (d :: s) ++ after).dropWhile isBlank = d :: s ++ after := by
      have hhead : ∀ c, (d :: s ++ after).head? = some c → isBlank c = false := hfirst
      rw [List.append_assoc]
      exact (takeWhile_dropWhile_append hbefore hhead).2
    have hend : (after.reverse ++ (d :: s).reverse).dropWhile isBlank = (d :: s).reverse := by
      apply (takeWhile_dropWhile_append _ _).2
      · exact fun c hc => hafter c (List.mem_reverse.1 hc)
      · intro c hc
        rw [List.head?_reverse] at hc
        exact hlast c hc
    rw [trim, hstart, List.reverse_append, hend, List.reverse_reverse]

/-- A text without blanks is left as it is. -/
theorem trim_eq_self {s : List Char} (h : ∀ c ∈ s, isBlank c = false) : trim s = s := by
  have hnone : ∀ c ∈ ([] : List Char), isBlank c := fun _ hc => nomatch hc
  have htrim := trim_append hnone hnone (fun c hc => h c (List.mem_of_head? hc)) fun c hc => h c (List.mem_of_getLast? hc)
  rwa [List.nil_append, List.append_nil] at htrim

/-- A text that does not start with a blank keeps its first character. -/
theorem exists_trim_cons {c : Char} (h : isBlank c = false) (s : List Char) : ∃ t, trim (c :: s) = c :: t := by
  have hstart : (c :: s).dropWhile isBlank = c :: s := by
    rw [List.dropWhile_cons, h]
    rfl
  rw [trim, hstart, List.reverse_cons, List.dropWhile_append]
  split
  · rw [List.dropWhile_cons, h]
    exact ⟨[], rfl⟩
  · refine ⟨(s.reverse.dropWhile isBlank).reverse, ?_⟩
    rw [List.reverse_append]
    rfl

/-- Trimming leaves nothing of a text of blanks, and of no other. -/
theorem trim_eq_nil_iff (s : List Char) : trim s = [] ↔ s.all isBlank := by
  rw [trim, List.reverse_eq_nil_iff, List.dropWhile_eq_nil_iff, List.all_eq_true]
  constructor
  · intro h
    have hnil : s.dropWhile isBlank = [] := by
      cases hs : s.dropWhile isBlank with
      | nil => rfl
      | cons c t =>
        -- what is left in front starts with a character that is not blank
        have hblank : isBlank c = true := h c (by simp [hs])
        have hhead := List.head?_dropWhile_not isBlank s
        rw [hs] at hhead
        simp [hblank] at hhead
    exact List.dropWhile_eq_nil_iff.1 hnil
  · intro h c hc
    exact h c ((List.dropWhile_sublist _).subset (List.mem_reverse.1 hc))

theorem trim_push_cr_eq_nil_iff (s : List Char) : trim (s ++ ['\r']) = [] ↔ trim s = [] := by
  have hcr : isBlank '\r' = true := by decide
  rw [trim_eq_nil_iff, trim_eq_nil_iff, List.all_append]
  simp [hcr]

end RecordFilter.Text
