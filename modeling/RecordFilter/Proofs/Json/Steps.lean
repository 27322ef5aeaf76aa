import RecordFilter.Json.Parser
import RecordFilter.Proofs.Text.Runs

namespace RecordFilter.Json

/-! # Readers, one step at a time

What a reader does with the first part of a text, and how it goes on. For the loops these are equations without the bounds
that end them.
-/

variable {ε α β σ : Type}

theorem skipBlanks_cons {c : Char} (h : isBlank c = false) (s : List Char) : skipBlanks (c :: s) = c :: s := by
  rw [skipBlanks, List.dropWhile_cons, h]
  rfl

theorem skipBlanks_skipBlanks (s : List Char) : skipBlanks (skipBlanks s) = skipBlanks s := by
  cases hs : skipBlanks s with
  | nil => rfl
  | cons c t =>
    have hhead := List.head?_dropWhile_not isBlank s
    rw [skipBlanks] at hs
    rw [hs] at hhead
    exact skipBlanks_cons hhead t

namespace Reader

theorem char_bind_run {accepts : Char → Bool} {c : Char} (h : accepts c) (next : Char → Reader ε α) (s : List Char) :
    ((char accepts).bind next).run (c :: s) = (next c).run s := by
  simp [Reader.bind, andThen, char, h]

theorem exactly_bind_run (c : Char) (next : Char → Reader ε α) (s : List Char) :
    ((exactly c).bind next).run (c :: s) = (next c).run s :=
  char_bind_run (BEq.rfl) next s

theorem afterBlanks_exactly_bind_run {c : Char} (hc : isBlank c = false) (next : Char → Reader ε α) (s : List Char) :
    ((exactly c).afterBlanks.bind next).run (c :: s) = (next c).run s := by
  simp [Reader.bind, andThen, afterBlanks, skipBlanks_cons hc, exactly, char]

theorem andThen_run_of_ok {r : Reader ε α} {step : α → List Char → Step ε β} {s rest : List Char} {a : α}
    (h : r.run s = .ok (a, rest)) :
    (r.andThen step).run s =
      match step a rest with
      | .stop (.error e) => .error e
      | .stop (.ok b) => .ok (b, rest)
      | .more next => next.run rest := by
  rcases hstep : step a rest with (_ | _) | _ <;> simp only [andThen, h, hstep]

theorem check_run_of_ok {r : Reader ε α} {f : α → Except (ReadError ε) β} {s rest : List Char} {a : α} {b : β}
    (h : r.run s = .ok (a, rest)) (hf : f a = .ok b) : (r.check f).run s = .ok (b, rest) := by
  rw [check, andThen_run_of_ok h]
  simp only [hf]

theorem map_run_of_ok {r : Reader ε α} {f : α → β} {s rest : List Char} {a : α} (h : r.run s = .ok (a, rest)) :
    (r.map f).run s = .ok (f a, rest) :=
  check_run_of_ok h rfl

theorem exists_of_map_run_eq_ok {r : Reader ε α} {f : α → β} {s rest : List Char} {b : β}
    (h : (r.map f).run s = .ok (b, rest)) : ∃ a, r.run s = .ok (a, rest) ∧ f a = b := by
  cases hread : r.run s with
  | error e =>
    simp only [Reader.map, check, andThen, hread] at h
    cases h
  | ok result =>
    obtain ⟨a, mid⟩ := result
    rw [map_run_of_ok hread] at h
    cases h
    exact ⟨a, rfl, rfl⟩

theorem optionally_run_of_absent {r : Reader ε α} {starts : Char → Bool} {next : Reader ε β} {s rest : List Char} {a : α}
    (h : r.run s = .ok (a, rest)) (habsent : ∀ c ∈ rest.head?, starts c = false) :
    (r.optionally starts next).run s = .ok ((a, none), rest) := by
  rw [optionally, andThen_run_of_ok h]
  cases rest with
  | nil => rfl
  | cons c rest =>
    have hc : starts c = false := habsent c rfl
    simp only [hc, Bool.false_eq_true, if_false]

theorem optionally_run_of_present {r : Reader ε α} {starts : Char → Bool} {next : Reader ε β} {s mid rest : List Char}
    {c : Char} {a : α} {b : β} (h : r.run s = .ok (a, c :: mid)) (hc : starts c)
    (hnext : next.run (c :: mid) = .ok (b, rest)) :
    (r.optionally starts next).run s = .ok ((a, some b), rest) := by
  rw [optionally, andThen_run_of_ok h]
  simp only [hc, if_true]
  exact map_run_of_ok hnext

/-- The pieces up to the closing character, without the bounds that end the loop. -/
theorem pieces_eq (close : Char) (piece : σ → Reader ε σ) (st : σ) (s : List Char) :
    pieces close piece st s =
      match (piece st).run s with
      | .error e => .error e
      | .ok (st', rest) =>
        match skipBlanks rest with
        | [] => .error .unexpectedEnd
        | c :: rest' =>
          if c = close then .ok (st', rest')
          else if c = ',' then pieces close piece st' rest'
          else .error .malformed := by
  rw [pieces]
  split
  · next h => simp only [h]
  · next st' rest h =>
    simp only [h]
    split
    · next hrest => simp only [hrest]
    · next c rest' hrest => simp only [hrest]

end Reader

open Reader

/-! ## Digits -/

theorem digitRun_run {cut : ReadError ε} {ds after : List Char} (hne : ds ≠ []) (hds : ∀ c ∈ ds, c.isDigit)
    (hafter : ∀ c ∈ after.head?, c.isDigit = false) : (digitRun cut).run (ds ++ after) = .ok (ds, after) := by
  obtain ⟨htake, hdrop⟩ := Text.takeWhile_dropWhile_append hds hafter
  have hempty : (ds ++ after).isEmpty = false := by simp [hne]
  have hnone : ds.isEmpty = false := by simpa using hne
  simp only [digitRun, htake, hdrop, hempty, hnone, Bool.false_eq_true, if_false]

/-! ## Strings -/

theorem escaped_run_cons (unicode : Reader ε Char) (c : Char) (s : List Char) :
    (escaped unicode).run (c :: s) =
      if c = 'u' then unicode.run s
      else
        match shortEscape? c with
        | some e => .ok (e, s)
        | none => .error .malformed := by
  simp only [escaped, andThen, char, if_true]
  by_cases hc : c = 'u'
  · simp [hc]
  · cases hescape : shortEscape? c with
    | some e => simp [hc]
    | none => simp [hc]


theorem untilQuote_eq (unicode : Reader ε Char) (done : List Char) (c : Char) (s : List Char) :
    untilQuote unicode done (c :: s) =
      if c = '"' then .ok (String.ofList done.reverse, s)
      else
        match (character unicode).run (c :: s) with
        | .error e => .error e
        | .ok (a, rest) => untilQuote unicode (a :: done) rest := by
  rw [untilQuote]
  split
  · rfl
  · split
    · next h => simp only [h]
    · next h => simp only [h]

end RecordFilter.Json
