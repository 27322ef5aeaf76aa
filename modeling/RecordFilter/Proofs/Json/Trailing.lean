import RecordFilter.Proofs.Json.Steps

namespace RecordFilter.Json

/-! # A carriage return behind a text

A value does not end in a carriage return, and whether one follows it makes no difference. So a text with a carriage
return behind it is read like the text alone (`Value.parse_of_parse_push`). What carries this is that each reader leaves
such a carriage return where it is, if it reads anything at all (`Reader.Sheds`).
-/

variable {ε α β σ : Type}

/-- Reading with blanks in front starts where the blanks end, at the latest before the last character if that is none. -/
theorem skipBlanks_append_cr {s rest : List Char} {c : Char} (h : skipBlanks (s ++ ['\r']) = c :: rest) :
    ∃ rest', rest = rest' ++ ['\r'] ∧ skipBlanks s = c :: rest' := by
  rw [skipBlanks, List.dropWhile_append] at h
  split at h
  · cases h
  · next hne =>
    cases hs : skipBlanks s with
    | nil =>
      rw [skipBlanks] at hs
      simp [hs] at hne
    | cons d s' =>
      rw [skipBlanks] at hs
      rw [hs, List.cons_append] at h
      cases h
      exact ⟨s', rfl, rfl⟩

namespace Reader

/-- A reader that can read a text with a carriage return behind it leaves the carriage return, and reads the same of
the text alone. -/
def Sheds (r : Reader ε α) : Prop :=
  ∀ ⦃s rest : List Char⦄ ⦃a : α⦄, r.run (s ++ ['\r']) = .ok (a, rest) →
    ∃ rest', rest = rest' ++ ['\r'] ∧ r.run s = .ok (a, rest')

theorem run_nil_ne_ok (r : Reader ε α) (a : α) (rest : List Char) : r.run [] ≠ .ok (a, rest) := by
  intro h
  have hlt := r.shorter h
  simp at hlt

/-! ## Combining readers -/

theorem sheds_fail (e : ReadError ε) : (fail e : Reader ε α).Sheds := by
  intro s rest a h
  cases h

theorem Sheds.afterBlanks {r : Reader ε α} (h : r.Sheds) : r.afterBlanks.Sheds := by
  intro s rest a hrun
  have hread : r.run (skipBlanks (s ++ ['\r'])) = .ok (a, rest) := hrun
  cases hs : skipBlanks (s ++ ['\r']) with
  | nil =>
    rw [hs] at hread
    exact absurd hread (run_nil_ne_ok r a rest)
  | cons c t =>
    obtain ⟨t', rfl, hskip⟩ := skipBlanks_append_cr hs
    rw [hs] at hread
    obtain ⟨rest', hrest, hread'⟩ := h (s := c :: t') hread
    refine ⟨rest', hrest, ?_⟩
    show r.run (skipBlanks s) = .ok (a, rest')
    rw [hskip, hread']

/-- A reader that is chosen by the first character is the same with a carriage return at the end. -/
theorem Sheds.branch {choose : List Char → Reader ε α} (h : ∀ s, (choose s).Sheds)
    (hfirst : ∀ c s, choose (c :: (s ++ ['\r'])) = choose (c :: s)) : (branch choose).Sheds := by
  intro s rest a hrun
  obtain ⟨rest', hrest, hread⟩ := h _ hrun
  cases s with
  | nil => exact absurd hread (run_nil_ne_ok _ a rest')
  | cons c s =>
    refine ⟨rest', hrest, ?_⟩
    show (choose (c :: s)).run (c :: s) = .ok (a, rest')
    rw [← hfirst]
    exact hread

theorem Sheds.andThen {r : Reader ε α} {step : α → List Char → Step ε β} (h : r.Sheds)
    (hstep : ∀ a s, step a (s ++ ['\r']) = step a s) (hmore : ∀ a s next, step a s = .more next → next.Sheds) :
    (r.andThen step).Sheds := by
  intro s rest b hrun
  simp only [Reader.andThen] at hrun ⊢
  cases hread : r.run (s ++ ['\r']) with
  | error e =>
    rw [hread] at hrun
    cases hrun
  | ok result =>
    obtain ⟨a, mid⟩ := result
    obtain ⟨mid', rfl, hread'⟩ := h hread
    rw [hread] at hrun
    simp only [hstep] at hrun
    rw [hread']
    cases hnext : step a mid' with
    | stop result =>
      cases result with
      | error e =>
        simp only [hnext] at hrun
        cases hrun
      | ok b' =>
        simp only [hnext] at hrun ⊢
        cases hrun
        exact ⟨mid', rfl, rfl⟩
    | more next =>
      simp only [hnext] at hrun ⊢
      exact hmore a mid' next hnext hrun

theorem Sheds.bind {r : Reader ε α} {next : α → Reader ε β} (h : r.Sheds) (hnext : ∀ a, (next a).Sheds) :
    (r.bind next).Sheds := by
  apply h.andThen
  · exact fun _ _ => rfl
  · intro a _ reader heq
    cases heq
    exact hnext a

theorem Sheds.check {r : Reader ε α} {f : α → Except (ReadError ε) β} (h : r.Sheds) : (r.check f).Sheds :=
  h.andThen (fun _ _ => rfl) (by
    intro a s next heq
    cases heq)

theorem Sheds.map {r : Reader ε α} {f : α → β} (h : r.Sheds) : (r.map f).Sheds := h.check

/-- Whether a second part follows is not told by a carriage return. -/
theorem Sheds.optionally {r : Reader ε α} {starts : Char → Bool} {next : Reader ε β} (h : r.Sheds)
    (hstarts : starts '\r' = false) (hnext : next.Sheds) : (r.optionally starts next).Sheds := by
  apply h.andThen
  · intro a s
    cases s with
    | nil => simp [hstarts]
    | cons c s => rfl
  · intro a s reader heq
    split at heq
    · split at heq
      · cases heq
        exact hnext.map
      · cases heq
    · cases heq

theorem sheds_char {accepts : Char → Bool} (h : accepts '\r' = false) : (char accepts : Reader ε Char).Sheds := by
  intro s rest c hrun
  cases s with
  | nil =>
    simp [char, h] at hrun
  | cons d s =>
    simp only [char, List.cons_append] at hrun ⊢
    split at hrun
    · next hd =>
      cases hrun
      exact ⟨s, rfl, by rw [if_pos hd]⟩
    · cases hrun

theorem sheds_exactly {c : Char} (h : c ≠ '\r') : (exactly c : Reader ε Char).Sheds := by
  apply sheds_char
  simpa using fun heq => h heq.symm

theorem sheds_word {first : Char} {cs : List Char} (hfirst : first ≠ '\r') (h : '\r' ∉ cs) :
    (word first cs : Reader ε Unit).Sheds := by
  induction cs generalizing first with
  | nil => exact (sheds_exactly hfirst).map
  | cons c cs ih =>
    have hcons : '\r' ≠ c ∧ '\r' ∉ cs := by simpa using h
    exact (sheds_exactly hfirst).bind fun _ => ih hcons.1.symm hcons.2

/-! ## Lists of pieces -/

theorem sheds_pieces {close : Char} {piece : σ → Reader ε σ} (hpiece : ∀ st, (piece st).Sheds) {st st' : σ}
    {s rest : List Char} (h : pieces close piece st (s ++ ['\r']) = .ok (st', rest)) :
    ∃ rest', rest = rest' ++ ['\r'] ∧ pieces close piece st s = .ok (st', rest') := by
  generalize ht : s ++ ['\r'] = t at h
  fun_induction pieces close piece st t generalizing s with
  | case1 => cases h
  | case2 => cases h
  | case3 st t st₁ mid hmid after hrest =>
    cases h
    subst ht
    obtain ⟨mid', rfl, hread⟩ := hpiece st hmid
    obtain ⟨after', rfl, hskip⟩ := skipBlanks_append_cr hrest
    refine ⟨after', rfl, ?_⟩
    rw [pieces_eq, hread]
    simp [hskip]
  | case4 st t st₁ mid hmid after hrest hclose hlt ih =>
    subst ht
    obtain ⟨mid', rfl, hread⟩ := hpiece st hmid
    obtain ⟨after', rfl, hskip⟩ := skipBlanks_append_cr hrest
    obtain ⟨rest', hrest', hpieces⟩ := ih rfl h
    refine ⟨rest', hrest', ?_⟩
    rw [pieces_eq, hread]
    simp [hskip, hclose, hpieces]
  | case5 => cases h

theorem sheds_delimited {start close : Char} (hstart : start ≠ '\r') (hclose : close ≠ '\r')
    {piece : σ → Reader ε σ} (hpiece : ∀ st, (piece st).Sheds) (st : σ) :
    (delimited start close piece st).Sheds := by
  apply (sheds_exactly hstart).bind
  intro _
  apply Sheds.afterBlanks
  intro s rest st' hrun
  cases s with
  | nil =>
    simp only [List.nil_append] at hrun
    split at hrun
    · next heq => exact absurd heq.symm hclose
    · obtain ⟨rest', _, hnil⟩ := sheds_pieces hpiece (s := []) hrun
      rw [pieces_eq] at hnil
      split at hnil
      · cases hnil
      · next hread => exact absurd hread (run_nil_ne_ok _ _ _)
  | cons c s =>
    simp only [List.cons_append] at hrun ⊢
    split at hrun
    · next hc =>
      cases hrun
      exact ⟨s, rfl, by rw [if_pos hc]⟩
    · next hc =>
      obtain ⟨rest', hrest, hpieces⟩ := sheds_pieces hpiece (s := c :: s) hrun
      exact ⟨rest', hrest, by rw [if_neg hc, hpieces]⟩

theorem sheds_array {item : Reader ε α} (h : item.Sheds) : (array item).Sheds :=
  (sheds_delimited (by decide) (by decide) (fun _ => h.map) []).map

theorem sheds_object {member : Reader ε α} (h : member.Sheds) : (object member).Sheds :=
  (sheds_delimited (by decide) (by decide) (fun _ => h.map) []).map

end Reader

open Reader

/-! ## Numbers -/

theorem takeWhile_dropWhile_push {p : Char → Bool} {c : Char} (hc : p c = false) (s : List Char) :
    (s ++ [c]).takeWhile p = s.takeWhile p ∧ (s ++ [c]).dropWhile p = s.dropWhile p ++ [c] := by
  induction s with
  | nil => simp [hc]
  | cons d s ih =>
    by_cases hd : p d = true
    · simp [hd, ih.1, ih.2]
    · simp [hd]

theorem sheds_digitRun (cut : ReadError ε) : (digitRun cut).Sheds := by
  intro s rest ds hrun
  obtain ⟨htake, hdrop⟩ := takeWhile_dropWhile_push (p := Char.isDigit) (c := '\r') (by decide) s
  simp only [digitRun, htake, hdrop] at hrun ⊢
  split at hrun
  · cases hrun
  · split at hrun
    · cases hrun
    · next hne =>
      cases hrun
      refine ⟨_, rfl, ?_⟩
      have hs : s.isEmpty = false := by
        cases s with
        | nil => simp at hne
        | cons c s => rfl
      simp [hs, hne]

theorem sheds_wholePart (cut : ReadError ε) : (wholePart cut).Sheds := (sheds_digitRun cut).check

theorem sheds_fractionPart (cut : ReadError ε) : (fractionPart cut).Sheds :=
  (sheds_exactly (by decide)).bind fun _ => sheds_digitRun cut

theorem sheds_exponentPart (cut : ReadError ε) : (exponentPart cut).Sheds := by
  apply (sheds_char (by decide)).bind
  intro _
  apply Sheds.branch
  · intro s
    split
    · exact (sheds_exactly (by decide)).bind fun _ => (sheds_digitRun cut).map
    · exact (sheds_exactly (by decide)).bind fun _ => (sheds_digitRun cut).map
    · exact (sheds_digitRun cut).map
  · intro c s
    grind

theorem sheds_numberToken (cut : ReadError ε) : (numberToken cut).Sheds := by
  have hunsigned : ∀ negative, (unsignedToken cut negative).Sheds := fun _ =>
    (((sheds_wholePart cut).optionally (by decide) (sheds_fractionPart cut)).optionally (by decide)
      (sheds_exponentPart cut)).map
  apply Sheds.branch
  · intro s
    split
    · exact (sheds_exactly (by decide)).bind fun _ => hunsigned true
    · exact hunsigned false
  · intro c s
    grind

/-! ## Strings -/

theorem sheds_hex4 : (hex4 : Reader ε Nat).Sheds := by
  intro s rest n hrun
  -- with fewer than four characters in front, the carriage return would have to be a digit
  match s with
  | [] =>
    simp only [hex4, List.nil_append] at hrun
    split at hrun <;> cases hrun
  | [a] =>
    simp only [hex4, List.cons_append, List.nil_append] at hrun
    split at hrun <;> cases hrun
  | [a, b] =>
    simp only [hex4, List.cons_append, List.nil_append] at hrun
    split at hrun <;> cases hrun
  | [a, b, c] =>
    have hdigit : hexDigit? '\r' = none := by decide
    simp [hex4, hdigit] at hrun
  | a :: b :: c :: d :: s =>
    simp only [hex4, List.cons_append] at hrun ⊢
    split at hrun
    · cases hrun
      exact ⟨s, rfl, rfl⟩
    · cases hrun

theorem sheds_codePoint : (codePoint : Reader ε Char).Sheds := by
  apply sheds_hex4.andThen
  · exact fun _ _ => rfl
  · intro n _ next heq
    split at heq
    · cases heq
    · split at heq
      · cases heq
        exact (sheds_exactly (by decide)).bind fun _ => (sheds_exactly (by decide)).bind fun _ => sheds_hex4.check
      · cases heq

/-- A backslash and a carriage return are no escape. -/
theorem sheds_escaped {unicode : Reader ε Char} (h : unicode.Sheds) : (escaped unicode).Sheds := by
  intro s rest a hrun
  cases s with
  | nil =>
    rw [List.nil_append, escaped_run_cons] at hrun
    cases hrun
  | cons c s =>
    rw [List.cons_append, escaped_run_cons] at hrun
    rw [escaped_run_cons]
    split at hrun
    · next hc =>
      rw [if_pos hc]
      exact h hrun
    · next hc =>
      rw [if_neg hc]
      split at hrun
      · cases hrun
        exact ⟨s, rfl, rfl⟩
      · cases hrun

theorem sheds_character {unicode : Reader ε Char} (h : unicode.Sheds) : (character unicode).Sheds := by
  apply (sheds_char (by decide)).andThen
  · exact fun _ _ => rfl
  · intro c _ next heq
    split at heq
    · cases heq
      exact sheds_escaped h
    · cases heq

theorem sheds_untilQuote {unicode : Reader ε Char} (hunicode : unicode.Sheds) {done s rest : List Char} {t : String}
    (h : untilQuote unicode done (s ++ ['\r']) = .ok (t, rest)) :
    ∃ rest', rest = rest' ++ ['\r'] ∧ untilQuote unicode done s = .ok (t, rest') := by
  generalize hs : s ++ ['\r'] = u at h
  fun_induction untilQuote unicode done u generalizing s with
  | case1 => cases h
  | case2 done after =>
    cases h
    cases s with
    | nil => cases hs
    | cons d s =>
      cases hs
      exact ⟨s, rfl, by rw [untilQuote_eq, if_pos rfl]⟩
  | case3 => cases h
  | case4 done c after hc a mid hrun hlt ih =>
    rw [← hs] at hrun
    obtain ⟨mid', rfl, hread⟩ := sheds_character hunicode hrun
    obtain ⟨rest', hrest, huntil⟩ := ih rfl h
    refine ⟨rest', hrest, ?_⟩
    cases s with
    | nil => exact absurd hread (run_nil_ne_ok _ _ _)
    | cons d s =>
      cases hs
      rw [untilQuote_eq, if_neg hc, hread]
      exact huntil

theorem sheds_string : (string : Reader ε String).Sheds :=
  (sheds_exactly (by decide)).bind fun _ _ _ _ h => sheds_untilQuote sheds_codePoint h

/-! ## Values -/

theorem sheds_scalar : (kept : Form ε Value).scalar.Sheds := by
  apply Sheds.branch
  · intro s
    split
    · exact sheds_fail _
    · exact (sheds_word (by decide) (by decide)).map
    · exact (sheds_word (by decide) (by decide)).map
    · exact (sheds_word (by decide) (by decide)).map
    · exact sheds_string.map
    · split
      · exact (sheds_numberToken _).check.map
      · exact sheds_fail _
  · intro c s
    grind

theorem sheds_value (levels : Nat) : ((kept : Form ε Value).value levels).Sheds := by
  induction levels with
  | zero => exact sheds_scalar.afterBlanks
  | succ levels ih =>
    apply Sheds.afterBlanks
    apply Sheds.branch
    · intro s
      split
      · exact (sheds_array ih).map
      · refine (sheds_object ?_).map
        exact sheds_string.afterBlanks.bind fun _ => (sheds_exactly (by decide)).afterBlanks.bind fun _ => ih.map
      · exact sheds_scalar
    · intro c s
      grind

/-- What is read from a text with a carriage return behind it is read from the text alone. -/
theorem Value.parse_of_parse_push {s : List Char} {v : Value}
    (h : Value.parse (String.ofList (s ++ ['\r'])) = .ok v) : Value.parse (String.ofList s) = .ok v := by
  simp only [Value.parse, whole, String.toList_ofList] at h ⊢
  split at h
  · cases h
  · next hrun =>
    obtain ⟨rest', rfl, hread⟩ := sheds_value maxNesting hrun
    split at h
    · next hblank =>
      cases h
      have hrest : skipBlanks rest' = [] := by
        cases hskip : skipBlanks rest' with
        | nil => rfl
        | cons c t =>
          rw [skipBlanks] at hskip
          simp [skipBlanks, List.dropWhile_append, hskip] at hblank
      rw [hread]
      simp [hrest]
    · cases h

end RecordFilter.Json
