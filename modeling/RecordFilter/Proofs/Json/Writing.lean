import RecordFilter.Proofs.Json.Numerals
import RecordFilter.Proofs.Json.Reading

namespace RecordFilter.Json

/-! # Values, written and read

What is written for a value is read back as the value (`reads_value`), and so is what is written for its parts. A reader
takes a text off whatever follows (`Reader.Reads`), unless that could be more of a number; in an array or an object a comma
or the closing character follows. The levels allowed have to be enough, and the keys distinct: of members with one key only
the last would be kept. What is written stands on one line (`Value.newline_notMem_render`).
-/

variable {ε α β σ : Type}

namespace Reader

/-- A text is taken off and read as `a`, if no more of a number follows. -/
def Reads (r : Reader ε α) (text : List Char) (a : α) : Prop :=
  ∀ ⦃after : List Char⦄, Ends after → r.run (text ++ after) = .ok (a, after)

variable {r : Reader ε α} {text more : List Char} {a : α} {b : β}

theorem ends_cons {c : Char} (h : c = ',' ∨ c = ':' ∨ c = ']' ∨ c = '}') (s : List Char) : Ends (c :: s) := by
  intro d hd
  cases hd
  rcases h with rfl | rfl | rfl | rfl <;> decide

theorem Reads.afterBlanks {c : Char} (h : r.Reads (c :: text) a) (hc : isBlank c = false) :
    r.afterBlanks.Reads (c :: text) a := by
  intro after hafter
  have hskip : skipBlanks (c :: text ++ after) = c :: text ++ after := skipBlanks_cons hc _
  show r.run (skipBlanks (c :: text ++ after)) = .ok (a, after)
  rw [hskip]
  exact h hafter

/-- The first character of a text chooses its reader. -/
theorem Reads.branch {choose : List Char → Reader ε α} {c : Char} (h : r.Reads (c :: text) a)
    (hchoose : ∀ s, choose (c :: s) = r) : (branch choose).Reads (c :: text) a := by
  intro after hafter
  show (choose (c :: (text ++ after))).run _ = _
  rw [hchoose]
  exact h hafter

theorem Reads.check {f : α → Except (ReadError ε) β} (h : r.Reads text a) (hf : f a = .ok b) :
    (r.check f).Reads text b :=
  fun _ hafter => check_run_of_ok (h hafter) hf

theorem Reads.map (f : α → β) (h : r.Reads text a) : (r.map f).Reads text (f a) := h.check rfl

/-- A second part follows that does not look like more of a number. -/
theorem Reads.andThen {step : α → List Char → Step ε β} {next : Reader ε β} {c : Char} (h : r.Reads text a)
    (hstep : ∀ s, step a s = .more next) (hnext : next.Reads (c :: more) b) (hc : c = ',' ∨ c = ':' ∨ c = ']' ∨ c = '}') :
    (r.andThen step).Reads (text ++ c :: more) b := by
  intro after hafter
  rw [List.append_assoc, List.cons_append, andThen_run_of_ok (h (ends_cons hc _)), hstep]
  exact hnext hafter

theorem Reads.bind {next : α → Reader ε β} {c : Char} (h : r.Reads text a) (hnext : (next a).Reads (c :: more) b)
    (hc : c = ',' ∨ c = ':' ∨ c = ']' ∨ c = '}') : (r.bind next).Reads (text ++ c :: more) b :=
  h.andThen (fun _ => rfl) hnext hc

theorem Reads.exactly_bind {c : Char} {next : Char → Reader ε α} (h : (next c).Reads text a) :
    ((exactly c).bind next).Reads (c :: text) a := by
  intro after hafter
  rw [List.cons_append, exactly_bind_run]
  exact h hafter

theorem Reads.afterBlanks_exactly_bind {c : Char} {next : Char → Reader ε α} (h : (next c).Reads text a)
    (hc : isBlank c = false) : ((exactly c).afterBlanks.bind next).Reads (c :: text) a := by
  intro after hafter
  rw [List.cons_append, afterBlanks_exactly_bind_run hc]
  exact h hafter

theorem reads_exactly (c : Char) : (exactly c : Reader ε Char).Reads [c] c := by
  intro after _
  simp [exactly, char]

theorem reads_word (first : Char) (cs : List Char) : (word first cs : Reader ε Unit).Reads (first :: cs) () := by
  induction cs generalizing first with
  | nil => exact (reads_exactly first).map _
  | cons c cs ih => exact (ih c).exactly_bind

/-! ## Lists of pieces -/

/-- A text that starts a piece, and not with a blank. -/
def Opens (text : List Char) : Prop := ∃ c s, text = c :: s ∧ isBlank c = false ∧ c ≠ ']' ∧ c ≠ '}'

theorem Opens.append (h : Opens text) (more : List Char) : Opens (text ++ more) := by
  obtain ⟨c, s, rfl, hc⟩ := h
  exact ⟨c, s ++ more, rfl, hc⟩

/-- Texts are read piece by piece, each from what those before it made. -/
inductive ReadsAll (piece : σ → Reader ε σ) : σ → List (List Char) → σ → Prop where
  | nil (st : σ) : ReadsAll piece st [] st
  | cons {st st' st'' : σ} {text : List Char} {texts : List (List Char)} (first : (piece st).Reads text st')
      (next : ReadsAll piece st' texts st'') : ReadsAll piece st (text :: texts) st''

variable {piece : σ → Reader ε σ} {st st' : σ} {texts : List (List Char)} {close : Char}

theorem ReadsAll.append {st'' : σ} {others : List (List Char)} (h : ReadsAll piece st texts st')
    (hothers : ReadsAll piece st' others st'') : ReadsAll piece st (texts ++ others) st'' := by
  induction h with
  | nil => exact hothers
  | cons first _ ih => exact .cons first (ih hothers)

theorem ReadsAll.pieces_eq_ok (h : ReadsAll piece st texts st') (hne : texts ≠ [])
    (hclose : close = ']' ∨ close = '}') (after : List Char) :
    pieces close piece st (commaSeparated texts ++ close :: after) = .ok (st', after) := by
  have hblank : isBlank close = false := by rcases hclose with rfl | rfl <;> decide
  induction h with
  | nil => exact absurd rfl hne
  | @cons st st₁ st' text texts first next ih =>
    cases texts with
    | nil =>
      -- the last piece, behind which the list is closed
      cases next
      have hends : Ends (close :: after) := ends_cons (by tauto) _
      rw [commaSeparated, pieces_eq, first hends]
      simp only [skipBlanks_cons hblank, if_true]
    | cons text' texts =>
      have hcomma : ',' ≠ close := by rcases hclose with rfl | rfl <;> decide
      have hcons : commaSeparated (text :: text' :: texts) = text ++ ',' :: commaSeparated (text' :: texts) := rfl
      rw [hcons, List.append_assoc, List.cons_append, pieces_eq, first (ends_cons (by tauto) _)]
      simp only [skipBlanks_cons (show isBlank ',' = false by decide), hcomma, if_false, if_true]
      exact ih (by simp)

theorem exists_commaSeparated_eq_cons (h : ∀ t ∈ texts, Opens t) (hne : texts ≠ []) : Opens (commaSeparated texts) := by
  cases texts with
  | nil => exact absurd rfl hne
  | cons text texts =>
    obtain ⟨c, s, rfl, hc⟩ := h text List.mem_cons_self
    cases texts with
    | nil => exact ⟨c, s, rfl, hc⟩
    | cons text' texts => exact ⟨c, s ++ ',' :: commaSeparated (text' :: texts), rfl, hc⟩

theorem ReadsAll.delimited (h : ReadsAll piece st texts st') (hopens : ∀ t ∈ texts, Opens t) (start : Char)
    (hclose : close = ']' ∨ close = '}') :
    (delimited start close piece st).Reads (start :: commaSeparated texts ++ [close]) st' := by
  have hblank : isBlank close = false := by rcases hclose with rfl | rfl <;> decide
  apply Reads.exactly_bind
  intro after _
  by_cases hne : texts = []
  · subst hne
    cases h
    simp [commaSeparated, Reader.afterBlanks, skipBlanks_cons hblank]
  · obtain ⟨c, s, hs, hc, hbracket, hbrace⟩ := exists_commaSeparated_eq_cons hopens hne
    have hpieces := h.pieces_eq_ok hne hclose after
    have hother : c ≠ close := by rcases hclose with rfl | rfl <;> assumption
    have htext : (commaSeparated texts).append [close] ++ after = c :: (s ++ close :: after) := by
      show commaSeparated texts ++ [close] ++ after = _
      rw [hs, List.append_assoc]
      rfl
    rw [hs] at hpieces
    rw [htext]
    simp only [Reader.afterBlanks, skipBlanks_cons hc, hother, if_false]
    exact hpieces

variable {f : β → List Char} {g : β → α} {bs : List β}

theorem readsAll_map (h : ∀ b ∈ bs, r.Reads (f b) (g b)) (items : List α) :
    ReadsAll (fun items => r.map (· :: items)) items (bs.map f) ((bs.map g).reverse ++ items) := by
  induction bs generalizing items with
  | nil => exact .nil items
  | cons b bs ih =>
    have hnext := ih (fun c hc => h c (List.mem_cons_of_mem _ hc)) (g b :: items)
    have hlist : (List.map g (b :: bs)).reverse ++ items = (bs.map g).reverse ++ g b :: items := by simp
    rw [hlist]
    exact .cons ((h b List.mem_cons_self).map _) hnext

theorem reads_array (h : ∀ b ∈ bs, r.Reads (f b) (g b)) (hopens : ∀ b ∈ bs, Opens (f b)) :
    (array r).Reads ('[' :: commaSeparated (bs.map f) ++ [']']) (bs.map g) := by
  have hall := ((readsAll_map h []).delimited (by simpa using hopens) '[' (Or.inl rfl)).map List.reverse
  rw [List.append_nil, List.reverse_reverse] at hall
  exact hall

theorem reads_object (h : ∀ b ∈ bs, r.Reads (f b) (g b)) (hopens : ∀ b ∈ bs, Opens (f b)) :
    (object r).Reads ('{' :: commaSeparated (bs.map f) ++ ['}']) (bs.map g) := by
  have hall := ((readsAll_map h []).delimited (by simpa using hopens) '{' (Or.inr rfl)).map List.reverse
  rw [List.append_nil, List.reverse_reverse] at hall
  exact hall

end Reader

open Reader

/-! ## Strings -/

/-- The escape of a control character ends in two digits that give its number. -/
theorem hexDigit?_digitChar : ∀ n < 16, hexDigit? (Nat.digitChar n) = some n := by decide

theorem codePoint_run_of_small {n : Nat} (h : n < 0x20) (after : List Char) :
    (codePoint : Reader ε Char).run ('0' :: '0' :: Nat.digitChar (n / 16) :: Nat.digitChar (n % 16) :: after) =
      .ok (Char.ofNat n, after) := by
  have hzero : hexDigit? '0' = some 0 := by decide
  have hvalue : ((0 * 16 + 0) * 16 + n / 16) * 16 + n % 16 = n := by omega
  have hhex : (hex4 : Reader ε Nat).run
      ('0' :: '0' :: Nat.digitChar (n / 16) :: Nat.digitChar (n % 16) :: after) = .ok (n, after) := by
    simp only [hex4, hzero, hexDigit?_digitChar (n / 16) (by omega), hexDigit?_digitChar (n % 16) (by omega), hvalue]
  rw [codePoint, andThen_run_of_ok hhex, if_neg (by omega), if_neg (by omega)]

/-- A character is escaped by one character behind a backslash, or by its number, or not at all. -/
theorem escape_cases (c : Char) :
    (∃ e, escape c = ['\\', e] ∧ e ≠ 'u' ∧ shortEscape? e = some c) ∨
      (escape c = controlEscape c ∧ c.toNat < 0x20) ∨
      (escape c = [c] ∧ c ≠ '"' ∧ c ≠ '\\' ∧ 0x20 ≤ c.toNat) := by
  unfold escape
  by_cases hshort : c = '"' ∨ c = '\\' ∨ c = '\x08' ∨ c = '\x0c' ∨ c = '\n' ∨ c = '\r' ∨ c = '\t'
  · left
    rcases hshort with rfl | rfl | rfl | rfl | rfl | rfl | rfl <;> exact ⟨_, rfl, by decide, rfl⟩
  · right
    simp only [not_or] at hshort
    obtain ⟨hquote, hslash, hb, hf, hn, hr, ht⟩ := hshort
    simp only [hquote, hslash, hb, hf, hn, hr, ht, if_false]
    by_cases hsmall : c.toNat < 0x20
    · exact Or.inl ⟨if_pos hsmall, hsmall⟩
    · exact Or.inr ⟨if_neg hsmall, hquote, hslash, Nat.le_of_not_lt hsmall⟩

/-- The text of a character is read back as the character. -/
theorem character_run_escape (c : Char) (after : List Char) :
    (character codePoint : Reader ε Char).run (escape c ++ after) = .ok (c, after) := by
  have hbackslash : ∀ s, (character codePoint : Reader ε Char).run ('\\' :: s) = (escaped codePoint).run s := fun _ => rfl
  rcases escape_cases c with ⟨e, hescape, hu, hshort⟩ | ⟨hescape, hsmall⟩ | ⟨hescape, _, hslash, hlarge⟩
  · rw [hescape, List.cons_append, hbackslash, List.cons_append, escaped_run_cons, if_neg hu, hshort]
    rfl
  · rw [hescape, controlEscape, List.cons_append, hbackslash, List.cons_append, escaped_run_cons, if_pos rfl]
    simp only [List.cons_append, List.nil_append]
    rw [codePoint_run_of_small hsmall, Char.ofNat_toNat]
  · rw [hescape]
    simp [character, andThen, char, hlarge, hslash]

theorem exists_escape_eq_cons (c : Char) : ∃ d s, escape c = d :: s ∧ d ≠ '"' := by
  rcases escape_cases c with ⟨e, hescape, _⟩ | ⟨hescape, _⟩ | ⟨hescape, hquote, _⟩
  · exact ⟨'\\', [e], hescape, by decide⟩
  · exact ⟨'\\', _, hescape, by decide⟩
  · exact ⟨c, [], hescape, hquote⟩

theorem untilQuote_run (s done after : List Char) :
    untilQuote (codePoint : Reader ε Char) done (s.flatMap escape ++ '"' :: after) =
      .ok (String.ofList (done.reverse ++ s), after) := by
  induction s generalizing done with
  | nil =>
    rw [List.flatMap_nil, List.nil_append, untilQuote_eq, if_pos rfl, List.append_nil]
  | cons c s ih =>
    obtain ⟨d, t, hescape, hquote⟩ := exists_escape_eq_cons c
    have hrun := character_run_escape (ε := ε) c (s.flatMap escape ++ '"' :: after)
    rw [hescape, List.cons_append] at hrun
    rw [List.flatMap_cons, List.append_assoc, hescape, List.cons_append, untilQuote_eq, if_neg hquote, hrun]
    simp only [ih, List.reverse_cons, List.append_assoc, List.cons_append, List.nil_append]

theorem reads_string (s : String) : (string : Reader ε String).Reads (renderString s) s := by
  intro after _
  have huntil := untilQuote_run (ε := ε) s.toList [] after
  rw [List.reverse_nil, List.nil_append, String.ofList_toList] at huntil
  rw [string, quoted, renderString, List.cons_append, List.cons_append, List.append_assoc, exactly_bind_run]
  exact huntil

theorem opens_renderString (s : String) : Opens (renderString s) :=
  ⟨'"', s.toList.flatMap escape ++ ['"'], rfl, by decide, by decide, by decide⟩

/-! ## Values -/

theorem isDigit_ne {c d : Char} (h : c.isDigit) (hd : d.isDigit = false) : c ≠ d := by
  rintro rfl
  rw [h] at hd
  cases hd

theorem exists_renderNumber_eq_cons (n : Number) : ∃ c s, n.render = c :: s ∧ (c = '-' ∨ c.isDigit) := by
  obtain ⟨t, ht, htext, _⟩ := exists_token_render n
  rw [htext, NumberToken.text]
  cases t.negative with
  | true => exact ⟨'-', _, rfl, Or.inl rfl⟩
  | false =>
    cases hwhole : t.whole with
    | nil => exact absurd hwhole ht.nonempty
    | cons c whole => exact ⟨c, _, rfl, Or.inr (ht.digits c (by rw [hwhole]; exact List.mem_cons_self))⟩

/-- What the text of a value starts with tells apart what readers tell apart by it. -/
theorem Value.exists_render_eq_cons (v : Value) :
    ∃ c s, v.render = c :: s ∧ isBlank c = false ∧ c ≠ ']' ∧ c ≠ '}' ∧ (v ≠ .null → c ≠ 'n') ∧
      ((∀ items, v ≠ .array items) → (∀ members, v ≠ .object members) → c ≠ '[' ∧ c ≠ '{') := by
  cases v with
  | null => exact ⟨'n', _, rfl, by decide, by decide, by decide, fun h => absurd rfl h, fun _ _ => by decide⟩
  | bool b =>
    cases b <;> exact ⟨_, _, rfl, by decide, by decide, by decide, fun _ => by decide, fun _ _ => by decide⟩
  | number n =>
    obtain ⟨c, s, hs, hc⟩ := exists_renderNumber_eq_cons n
    refine ⟨c, s, hs, ?_⟩
    rcases hc with rfl | hdigit
    · exact ⟨by decide, by decide, by decide, fun _ => by decide, fun _ _ => by decide⟩
    · have hne : ∀ {d : Char}, d.isDigit = false → c ≠ d := isDigit_ne hdigit
      have hblank : isBlank c = false := by
        simp [isBlank, hne (d := ' ') rfl, hne (d := '\t') rfl, hne (d := '\n') rfl, hne (d := '\r') rfl]
      exact ⟨hblank, hne rfl, hne rfl, fun _ => hne rfl, fun _ _ => ⟨hne rfl, hne rfl⟩⟩
  | string s => exact ⟨'"', _, rfl, by decide, by decide, by decide, fun _ => by decide, fun _ _ => by decide⟩
  | array items => exact ⟨'[', _, rfl, by decide, by decide, by decide, fun _ => by decide, fun h _ => absurd rfl (h items)⟩
  | object members =>
    exact ⟨'{', _, rfl, by decide, by decide, by decide, fun _ => by decide, fun _ h => absurd rfl (h members)⟩

theorem Value.opens_render (v : Value) : Opens v.render := by
  obtain ⟨c, s, hs, hblank, hbracket, hbrace, _⟩ := v.exists_render_eq_cons
  exact ⟨c, s, hs, hblank, hbracket, hbrace⟩

theorem renderItems_eq (items : List Value) : renderItems items = items.map Value.render := by
  induction items with
  | nil => rfl
  | cons v items ih => rw [renderItems, ih, List.map_cons]

theorem renderMembers_eq (members : List (String × Value)) :
    renderMembers members = members.map fun e => renderString e.1 ++ ':' :: e.2.render := by
  induction members with
  | nil => rfl
  | cons e members ih =>
    obtain ⟨k, v⟩ := e
    rw [renderMembers, ih, List.map_cons]

/-! ### Scalars -/

theorem reads_scalar_null : (kept : Form ε Value).scalar.Reads Value.null.render .null := by
  refine Reads.branch ((reads_word 'n' ['u', 'l', 'l']).map fun _ => Value.null) ?_
  exact fun _ => rfl

theorem reads_scalar_bool (b : Bool) : (kept : Form ε Value).scalar.Reads (Value.bool b).render (.bool b) := by
  cases b with
  | true =>
    refine Reads.branch ((reads_word 't' ['r', 'u', 'e']).map fun _ => Value.bool true) ?_
    exact fun _ => rfl
  | false =>
    refine Reads.branch ((reads_word 'f' ['a', 'l', 's', 'e']).map fun _ => Value.bool false) ?_
    exact fun _ => rfl

theorem reads_scalar_string (s : String) :
    (kept : Form ε Value).scalar.Reads (Value.string s).render (.string s) := by
  refine Reads.branch ((reads_string s).map Value.string) ?_
  exact fun _ => rfl

theorem reads_scalar_number (n : Number) :
    (kept : Form ε Value).scalar.Reads (Value.number n).render (.number n) := by
  have hnumber : (kept : Form ε Value).number.Reads n.render (.number n) :=
    Reads.map Value.number fun _ hafter => number_run_render n hafter
  obtain ⟨c, s, hs, hc⟩ := exists_renderNumber_eq_cons n
  rw [hs] at hnumber
  rw [Value.render, hs]
  refine Reads.branch hnumber ?_
  intro t
  -- what starts a number starts none of the others
  have hstart : (c == '-' || c.isDigit) = true := by simpa using hc
  split
  · next h => cases h
  · next h => cases h; cases hstart
  · next h => cases h; cases hstart
  · next h => cases h; cases hstart
  · next h => cases h; cases hstart
  · next h =>
    cases h
    rw [if_pos hstart]

/-- A value without levels is read as a scalar, however many are allowed. -/
theorem reads_value_of_scalar {v : Value} (h : (kept : Form ε Value).scalar.Reads v.render v)
    (harray : ∀ items, v ≠ .array items) (hobject : ∀ members, v ≠ .object members) (levels : Nat) :
    ((kept : Form ε Value).value levels).Reads v.render v := by
  obtain ⟨c, s, hs, hblank, _, _, _, hflat⟩ := v.exists_render_eq_cons
  obtain ⟨hbracket, hbrace⟩ := hflat harray hobject
  rw [hs] at h ⊢
  cases levels with
  | zero => exact h.afterBlanks hblank
  | succ levels =>
    refine (h.branch ?_).afterBlanks hblank
    intro t
    split
    · next heq => exact absurd (List.cons.inj heq).1 hbracket
    · next heq => exact absurd (List.cons.inj heq).1 hbrace
    · rfl

/-! ### All values -/

/-- What is written for a value is read back, if it has no more levels than allowed and no key twice in one object. -/
theorem reads_value {levels : Nat} {v : Value} (hnest : v.nest ≤ levels) (hdistinct : v.Distinct) :
    ((kept : Form ε Value).value levels).Reads v.render v := by
  induction v generalizing levels with
  | null => exact reads_value_of_scalar reads_scalar_null (by simp) (by simp) levels
  | bool b => exact reads_value_of_scalar (reads_scalar_bool b) (by simp) (by simp) levels
  | number n => exact reads_value_of_scalar (reads_scalar_number n) (by simp) (by simp) levels
  | string s => exact reads_value_of_scalar (reads_scalar_string s) (by simp) (by simp) levels
  | array items ih =>
    rw [Value.nest] at hnest
    obtain ⟨levels, rfl⟩ : ∃ l, levels = l + 1 := ⟨levels - 1, by omega⟩
    have hitem : ∀ v ∈ items, ((kept : Form ε Value).value levels).Reads v.render v := by
      intro v hv
      have hle := Value.nest_le_nestItems hv
      exact ih v hv (by omega) (Value.distinct_array.1 hdistinct v hv)
    have hitems := reads_array hitem fun v _ => v.opens_render
    rw [List.map_id'] at hitems
    rw [Value.render, renderItems_eq]
    exact ((hitems.map Value.array).branch fun _ => rfl).afterBlanks (by decide)
  | object members ih =>
    rw [Value.nest] at hnest
    obtain ⟨levels, rfl⟩ : ∃ l, levels = l + 1 := ⟨levels - 1, by omega⟩
    obtain ⟨hkeys, heach⟩ := Value.distinct_object.1 hdistinct
    have hmember : ∀ e ∈ members, (Form.member (kept : Form ε Value).key (kept.value levels)).Reads
        (renderString e.1 ++ ':' :: e.2.render) e := by
      intro e he
      have hle := Value.nest_le_nestMembers (List.mem_map_of_mem (f := Prod.snd) he)
      have hvalue : ((kept : Form ε Value).value levels).Reads e.2.render e.2 := ih e he (by omega) (heach e he)
      have hkey := (reads_string (ε := ε) e.1).afterBlanks (by decide)
      have hcolon : ((exactly ':' : Reader ε Char).afterBlanks.bind fun _ => (kept.value levels).map fun v => (e.1, v)).Reads
          (':' :: e.2.render) e :=
        Reads.afterBlanks_exactly_bind (hvalue.map fun v => (e.1, v)) (by decide)
      exact hkey.bind hcolon (by simp)
    have hmembers := reads_object hmember fun e _ => (opens_renderString e.1).append _
    rw [List.map_id'] at hmembers
    have hobject := hmembers.map (kept : Form ε Value).object
    have hself : (kept : Form ε Value).object members = .object members :=
      congrArg Value.object (Dictionary.ofList_eq_self hkeys)
    rw [hself] at hobject
    rw [Value.render, renderMembers_eq]
    exact (hobject.branch fun _ => rfl).afterBlanks (by decide)

/-- The text of a value is read back as the value, if it is not nested too deep. -/
theorem Value.parse_text {v : Value} (hnest : v.nest ≤ maxNesting) (hdistinct : v.Distinct) : parse v.text = .ok v := by
  have hread := reads_value (ε := Empty) hnest hdistinct ends_nil
  rw [List.append_nil] at hread
  rw [parse, text, String.toList_ofList, whole, hread]
  rfl

/-! ## Lines -/

theorem digitChar_ne_newline : ∀ n < 16, Nat.digitChar n ≠ '\n' := by decide

theorem newline_notMem_escape (c : Char) : '\n' ∉ escape c := by
  rcases escape_cases c with ⟨e, hescape, _, hshort⟩ | ⟨hescape, hsmall⟩ | ⟨hescape, _, _, hlarge⟩
  · have he : '\n' ≠ e := by
      rintro rfl
      cases hshort
    rw [hescape]
    simp [he]
  · have hhigh := digitChar_ne_newline (c.toNat / 16) (by omega)
    have hlow := digitChar_ne_newline (c.toNat % 16) (by omega)
    rw [hescape]
    simp [controlEscape, hhigh.symm, hlow.symm]
  · have hc : '\n' ≠ c := by
      rintro rfl
      exact absurd hlarge (by decide)
    rw [hescape]
    simp [hc]

theorem newline_notMem_renderString (s : String) : '\n' ∉ renderString s := by
  simp [renderString, newline_notMem_escape]

theorem newline_notMem_commaSeparated {texts : List (List Char)} (h : ∀ t ∈ texts, '\n' ∉ t) :
    '\n' ∉ commaSeparated texts := by
  induction texts with
  | nil => exact List.not_mem_nil
  | cons t texts ih =>
    have ht := h t List.mem_cons_self
    cases texts with
    | nil => exact ht
    | cons t' texts =>
      have htexts := ih fun t ht => h t (List.mem_cons_of_mem _ ht)
      rw [commaSeparated]
      · simp [ht, htexts]
      · simp

/-- A value is written on one line. -/
theorem Value.newline_notMem_render (v : Value) : '\n' ∉ v.render := by
  induction v with
  | null => decide
  | bool b =>
    cases b with
    | true => decide
    | false => decide
  | number n => exact newline_notMem_renderNumber n
  | string s => exact newline_notMem_renderString s
  | array items ih =>
    have hitems : '\n' ∉ commaSeparated (renderItems items) := by
      apply newline_notMem_commaSeparated
      intro t ht
      rw [renderItems_eq] at ht
      obtain ⟨v, hv, rfl⟩ := List.mem_map.1 ht
      exact ih v hv
    simp [render, hitems]
  | object members ih =>
    have hmembers : '\n' ∉ commaSeparated (renderMembers members) := by
      apply newline_notMem_commaSeparated
      intro t ht
      rw [renderMembers_eq] at ht
      obtain ⟨e, he, rfl⟩ := List.mem_map.1 ht
      simp [newline_notMem_renderString, ih e he]
    simp [render, hmembers]

end RecordFilter.Json
