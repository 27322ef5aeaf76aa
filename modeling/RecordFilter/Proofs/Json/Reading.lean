import RecordFilter.Proofs.Json.Steps
import RecordFilter.Proofs.Json.Value

namespace RecordFilter.Json

/-! # What readers can read

A fact about all that a reader can read is put together from its parts (`Reader.Yields`). With it every value that is read
from a text has distinct keys, at every depth, because of members with one key only the last is kept.
-/

variable {ε α β σ : Type}

namespace Reader

/-- Whatever a reader reads satisfies `P`. -/
def Yields (r : Reader ε α) (P : α → Prop) : Prop :=
  ∀ ⦃s rest : List Char⦄ ⦃a : α⦄, r.run s = .ok (a, rest) → P a

variable {P : α → Prop} {Q : β → Prop} {r : Reader ε α}

theorem yields_fail (e : ReadError ε) : (fail e : Reader ε α).Yields P := by
  intro s rest a h
  cases h

theorem Yields.branch {choose : List Char → Reader ε α} (h : ∀ s, (choose s).Yields P) :
    (branch choose).Yields P := by
  intro s rest a hrun
  exact h s hrun

theorem Yields.afterBlanks (h : r.Yields P) : r.afterBlanks.Yields P := by
  intro s rest a hrun
  exact h hrun

theorem Yields.bind {next : α → Reader ε β} (h : ∀ a, (next a).Yields Q) : (r.bind next).Yields Q := by
  intro s rest b hrun
  simp only [Reader.bind, andThen] at hrun
  split at hrun
  · cases hrun
  · exact h _ hrun

theorem Yields.map {f : α → β} (h : r.Yields fun a => Q (f a)) : (r.map f).Yields Q := by
  intro s rest b hrun
  simp only [Reader.map, check, andThen] at hrun
  split at hrun
  · cases hrun
  · next a rest' hread =>
    cases hrun
    exact h hread

theorem yields_map {f : α → β} (h : ∀ a, Q (f a)) : (r.map f).Yields Q :=
  Yields.map fun _ _ a _ => h a

theorem Yields.check {f : α → Except (ReadError ε) β} (h : r.Yields fun a => ∀ b, f a = .ok b → Q b) :
    (r.check f).Yields Q := by
  intro s rest b hrun
  simp only [Reader.check, Reader.andThen] at hrun
  split at hrun
  · cases hrun
  · next a rest' hread =>
    cases hf : f a with
    | error e =>
      rw [hf] at hrun
      cases hrun
    | ok c =>
      rw [hf] at hrun
      cases hrun
      exact h hread b hf

/-- What a step stops with or reads next satisfies `Q`. -/
def Step.Yields (step : Step ε β) (Q : β → Prop) : Prop :=
  (∀ next, step = .more next → next.Yields Q) ∧ ∀ b, step = .stop (.ok b) → Q b

theorem Yields.andThen {step : α → List Char → Step ε β} (h : ∀ a s, (step a s).Yields Q) :
    (r.andThen step).Yields Q := by
  intro s rest b hrun
  simp only [Reader.andThen] at hrun
  split at hrun
  · cases hrun
  · next a mid hread =>
    obtain ⟨hmore, hstop⟩ := h a mid
    split at hrun
    · cases hrun
    · next heq =>
      cases hrun
      exact hstop b heq
    · next next' heq => exact hmore next' heq hrun

theorem Yields.of_whole (h : r.Yields P) {s : List Char} {a : α} (hwhole : r.whole s = .ok a) : P a := by
  unfold whole at hwhole
  split at hwhole
  · cases hwhole
  · next hrun =>
    split at hwhole
    · cases hwhole
      exact h hrun
    · cases hwhole

/-- What holds of the state and is kept by each piece holds in the end. -/
theorem of_pieces_eq_ok {close : Char} {piece : σ → Reader ε σ} {P : σ → Prop}
    (hpiece : ∀ st, P st → (piece st).Yields P) {st st' : σ} {s rest : List Char} (hst : P st)
    (h : pieces close piece st s = .ok (st', rest)) : P st' := by
  fun_induction pieces close piece st s with
  | case1 => cases h
  | case2 => cases h
  | case3 st s st₁ mid hmid rest' hrest =>
    cases h
    exact hpiece st hst hmid
  | case4 st s st₁ mid hmid rest' hrest hclose hlt ih =>
    -- the state after one piece is the state in front of the others
    exact ih (hpiece st hst hmid) h
  | case5 => cases h

theorem yields_delimited {start close : Char} {piece : σ → Reader ε σ} {P : σ → Prop}
    (hpiece : ∀ st, P st → (piece st).Yields P) {st : σ} (hst : P st) :
    (delimited start close piece st).Yields P := by
  apply Yields.bind
  intro _
  apply Yields.afterBlanks
  intro s rest st' hrun
  simp only at hrun
  split at hrun
  · cases hrun
  · split at hrun
    · cases hrun
      exact hst
    · exact of_pieces_eq_ok hpiece hst hrun

/-- One more element in front satisfies what all others do. -/
theorem yields_cons (h : r.Yields P) (as : List α) (has : ∀ a ∈ as, P a) :
    (r.map (· :: as)).Yields fun as => ∀ a ∈ as, P a := by
  apply Yields.map
  intro s rest a hrun b hb
  rcases List.mem_cons.1 hb with rfl | htail
  · exact h hrun
  · exact has b htail

theorem yields_array (h : r.Yields P) : (array r).Yields fun as => ∀ a ∈ as, P a := by
  apply Yields.map
  intro s rest as hrun a ha
  have hnil : ∀ a ∈ ([] : List α), P a := fun _ hmem => nomatch hmem
  exact yields_delimited (yields_cons h) hnil hrun a (List.mem_reverse.1 ha)

theorem yields_object (h : r.Yields P) : (object r).Yields fun as => ∀ a ∈ as, P a := by
  apply Yields.map
  intro s rest as hrun a ha
  have hnil : ∀ a ∈ ([] : List α), P a := fun _ hmem => nomatch hmem
  exact yields_delimited (yields_cons h) hnil hrun a (List.mem_reverse.1 ha)

end Reader

open Reader

/-- What holds of scalars, and of an array or an object, one level up, if it holds of all in it, holds of all values that
are kept. -/
theorem yields_value {P : Nat → Value → Prop} (null : ∀ n, P n .null) (bool : ∀ n b, P n (.bool b))
    (number : ∀ n x, P n (.number x)) (string : ∀ n s, P n (.string s))
    (array : ∀ n items, (∀ v ∈ items, P n v) → P (n + 1) (.array items))
    (object : ∀ n members, (Dictionary.keys members).Nodup → (∀ e ∈ members, P n e.2) → P (n + 1) (.object members))
    (levels : Nat) : ((kept : Form ε Value).value levels).Yields (P levels) := by
  have hscalar : ∀ n, (kept : Form ε Value).scalar.Yields (P n) := by
    intro n
    apply Yields.branch
    intro s
    split
    · exact yields_fail _
    · exact yields_map fun _ => null n
    · exact yields_map fun _ => bool n true
    · exact yields_map fun _ => bool n false
    · exact yields_map fun s => string n s
    · split
      · exact yields_map fun x => number n x
      · exact yields_fail _
  induction levels with
  | zero => exact (hscalar 0).afterBlanks
  | succ levels ih =>
    apply Yields.afterBlanks
    apply Yields.branch
    intro s
    split
    · apply Yields.map
      intro s rest items hrun
      exact array levels items (yields_array ih hrun)
    · apply Yields.map
      intro s rest members hrun
      have hmember : (Form.member (kept : Form ε Value).key (kept.value levels)).Yields
          fun e => P levels e.2 := by
        apply Yields.bind
        intro _
        apply Yields.bind
        intro _
        apply Yields.map
        intro s rest v hread
        exact ih hread
      -- of the members with one key the last is kept, which was read like the others
      have heach := yields_object hmember hrun
      exact object levels _ (Dictionary.nodup_keys_ofList members) fun e he =>
        heach e (Dictionary.mem_of_mem_ofList he)
    · exact hscalar (levels + 1)

/-- A value that is kept has distinct keys. -/
theorem yields_distinct (levels : Nat) :
    ((kept : Form ε Value).value levels).Yields Value.Distinct := by
  apply yields_value (P := fun _ => Value.Distinct)
  · exact fun _ => .null
  · exact fun _ => .bool
  · exact fun _ => .number
  · exact fun _ => .string
  · exact fun _ _ each => .array each
  · exact fun _ _ keys each => .object keys each

/-- A value that is kept has no more levels than allowed. -/
theorem yields_nest_le (levels : Nat) :
    ((kept : Form ε Value).value levels).Yields fun v => v.nest ≤ levels := by
  apply yields_value (P := fun n v => v.nest ≤ n)
  · exact fun n => Nat.zero_le n
  · exact fun n _ => Nat.zero_le n
  · exact fun n _ => Nat.zero_le n
  · exact fun n _ => Nat.zero_le n
  · exact fun _ _ each => Nat.succ_le_succ (Value.nestItems_le each)
  · exact fun _ _ _ each => Nat.succ_le_succ (Value.nestMembers_le each)

/-- Only a text that starts with its first letter is read as `null`. -/
theorem exists_of_scalar_run_null {s rest : List Char} (h : (kept : Form ε Value).scalar.run s = .ok (.null, rest)) :
    ∃ t, s = 'n' :: t := by
  simp only [Form.scalar, branch] at h
  split at h
  · cases h
  · exact ⟨_, rfl⟩
  · obtain ⟨_, _, hnull⟩ := exists_of_map_run_eq_ok h
    cases hnull
  · obtain ⟨_, _, hnull⟩ := exists_of_map_run_eq_ok h
    cases hnull
  · obtain ⟨_, _, hnull⟩ := exists_of_map_run_eq_ok h
    cases hnull
  · split at h
    · obtain ⟨_, _, hnull⟩ := exists_of_map_run_eq_ok h
      cases hnull
    · cases h

theorem exists_of_value_run_null {levels : Nat} {s rest : List Char}
    (h : ((kept : Form ε Value).value levels).run s = .ok (.null, rest)) : ∃ t, skipBlanks s = 'n' :: t := by
  cases levels with
  | zero => exact exists_of_scalar_run_null h
  | succ levels =>
    simp only [Form.value, afterBlanks, branch] at h
    split at h
    · obtain ⟨_, _, hnull⟩ := exists_of_map_run_eq_ok h
      cases hnull
    · obtain ⟨_, _, hnull⟩ := exists_of_map_run_eq_ok h
      cases hnull
    · exact exists_of_scalar_run_null h

/-- Every value that is read from a text has distinct keys. -/
theorem Value.distinct_of_parse {text : String} {v : Value} (h : Value.parse text = .ok v) :
    v.Distinct :=
  (yields_distinct maxNesting).of_whole h

/-- What is read from a text is nested no deeper than is allowed. -/
theorem Value.nest_le_of_parse {text : String} {v : Value} (h : Value.parse text = .ok v) : v.nest ≤ maxNesting :=
  (yields_nest_le maxNesting).of_whole h

end RecordFilter.Json
