import RecordFilter.Proofs.Path.Grammar
import RecordFilter.Proofs.Path.Prefixes

namespace RecordFilter.Path

/-! # Printing paths

A path is printed with its names as they are. Its text is read back as the path just where all names are plain, and so
are the names of any path that was read. What carries this is that the printed segments of such a path are the split
of its text (`splits_render`). A text that was read is printed again, but for leading zeros of its positions, which
are the one thing about a text that its path does not tell (`Splits.trimZeros_eq`).
-/

/-- The paths that can be put together step by step, taken apart again, or read. Positions are 64-bit words. -/
inductive Built : Path → Prop where
  | root : Built root
  | field (name : String) : Built (field name)
  | key {p : Path} (above : Built p) (name : String) : Built (p.key name)
  | index {p : Path} (above : Built p) {i : Nat} (word : i < Segment.indexLimit) : Built (p.index i)
  | wildcard {p : Path} (above : Built p) : Built p.wildcard
  | child {p : Path} (above : Built p) {s : Segment} (word : ∀ i, s = .index i → i < Segment.indexLimit) :
      Built (p.child s)
  | parent {p q : Path} (below : Built p) (up : p.parent = .ok q) : Built q
  | parse {t : String} {p : Path} (read : parse t = .ok p) : Built p

/-- No name of the path is empty or has a dot or an opening bracket in it. -/
def Plain (p : Path) : Prop :=
  ∀ n, .name n ∈ p.segments → n ≠ "" ∧ '.' ∉ n.toList ∧ '[' ∉ n.toList

/-- A text without zeros that stand between an opening bracket and a digit, also with other such zeros between.
Whether the bracket and zeros only are in front is said by `leading`. -/
def trimZeros (leading : Bool) : List Char → List Char
  | [] => []
  | c :: s =>
    if leading && c == '0' && s.head?.any Char.isDigit then trimZeros true s
    else c :: trimZeros (c == '[') s

/-- A path text without the leading zeros of its positions. -/
def withoutLeadingZeros (t : String) : String := String.ofList (trimZeros false t.toList)

/-! ## Texts that were read -/

theorem Splits.segmentText {s r : List Char} {parts : List (List Char × Segment)} (h : Splits s parts r) :
    ∀ e ∈ parts, SegmentText e.1 e.2 := by
  induction h with
  | rest _ => exact fun e he => nomatch he
  | segment first _ _ ih =>
    intro e he
    rcases List.mem_cons.1 he with rfl | htail
    · exact first
    · exact ih e htail

/-- A text that was read is `$` and the segment texts of the path. -/
theorem splits_of_parse {t : String} {p : Path} (h : parse t = .ok p) :
    ∃ s parts, t.toList = '$' :: s ∧ Splits s parts [] ∧ p.segments = parts.map Prod.snd := by
  -- without the `$`, and unless the split ends where the text does, reading fails
  by_cases hdollar : ∃ s, t.toList = '$' :: s
  · rcases hdollar with ⟨s, hs⟩
    rcases exists_splits s with ⟨parts, r, hsplit⟩
    rcases hsplit.readSegments_eq (Text.byteLength t.toList) root with ⟨hok, herror⟩
    rw [parse_of_dollar hs, mapError_eq_ok] at h
    by_cases hr : r = []
    · subst hr
      rcases hok rfl with ⟨q, hq, hsegments⟩
      cases hq.symm.trans h
      exact ⟨s, parts, hs, hsplit, hsegments⟩
    · rcases herror hr with ⟨fault, _, hread⟩
      cases hread.symm.trans h
  · rw [parse_of_not_dollar fun s hs => hdollar ⟨s, hs⟩] at h
    cases h

theorem segmentText_of_parse {t : String} {p : Path} (h : parse t = .ok p) {s : Segment} (hs : s ∈ p.segments) :
    ∃ text, SegmentText text s := by
  rcases splits_of_parse h with ⟨_, parts, _, hsplit, hsegments⟩
  rw [hsegments] at hs
  rcases List.mem_map.1 hs with ⟨e, he, rfl⟩
  exact ⟨e.1, hsplit.segmentText e he⟩

/-- The names in a path that was read are plain. -/
theorem plain_of_parse {t : String} {p : Path} (h : parse t = .ok p) : p.Plain := by
  intro n hn
  rcases segmentText_of_parse h hn with ⟨text, htext⟩
  cases htext with
  | @name n nonempty plain =>
    rw [String.toList_ofList]
    refine ⟨?_, fun hdot => (plain _ hdot).1 rfl, fun hbracket => (plain _ hbracket).2 rfl⟩
    intro hempty
    exact nonempty (String.ofList_eq_empty_iff.1 hempty)

theorem index_lt_of_parse {t : String} {p : Path} (h : parse t = .ok p) {i : Nat} (hi : .index i ∈ p.segments) :
    i < Segment.indexLimit := by
  rcases segmentText_of_parse h hi with ⟨text, htext⟩
  cases htext with
  | index _ _ bounded => exact bounded

/-- However a path was put together, its positions are 64-bit words. -/
theorem Built.index_lt {p : Path} (h : Built p) {i : Nat} (hi : .index i ∈ p.segments) :
    i < Segment.indexLimit := by
  induction h with
  | root => cases hi
  | field name => simp [Path.field, segments] at hi
  | key _ name ih => exact ih (by simpa [Path.key, segments] using hi)
  | @index p _ j word ih =>
    have hor : .index i ∈ p.segments ∨ i = j := by simpa [Path.index, segments] using hi
    rcases hor with habove | rfl
    · exact ih habove
    · exact word
  | wildcard _ ih => exact ih (by simpa [Path.wildcard, segments] using hi)
  | @child p _ s word ih =>
    have hor : .index i ∈ p.segments ∨ .index i = s := by simpa [segments] using hi
    rcases hor with habove | hlast
    · exact ih habove
    · exact word i hlast.symm
  | @parent p q _ up ih =>
    cases p with
    | root => cases up
    | child p s =>
      cases up
      exact ih (by simp [segments, hi])
  | parse read => exact index_lt_of_parse read hi

/-! ## Reading what was printed -/

theorem segmentText_render {s : Segment} (hplain : ∀ n, s = .name n → n ≠ "" ∧ '.' ∉ n.toList ∧ '[' ∉ n.toList)
    (hword : ∀ i, s = .index i → i < Segment.indexLimit) : SegmentText s.render s := by
  cases s with
  | name n =>
    rcases hplain n rfl with ⟨hne, hdot, hbracket⟩
    have htext : SegmentText ('.' :: n.toList) (.name (String.ofList n.toList)) := by
      apply SegmentText.name
      · simpa using hne
      · intro c hc
        exact ⟨fun h => hdot (h ▸ hc), fun h => hbracket (h ▸ hc)⟩
    rw [String.ofList_toList] at htext
    exact htext
  | index i =>
    have hread : Segment.ofBracket? (Text.digits i) = some (.index i) := by
      have hstar : Text.digits i ≠ ['*'] := by
        intro h
        have hdigit := Text.isDigit_of_mem_digits (n := i) (c := '*') (by simp [h])
        exact absurd hdigit (by decide)
      simp [Segment.ofBracket?, hstar, Text.natural?_digits, hword i rfl]
    exact ofBracket?_eq_some_iff.1 hread
  | wildcard => exact .wildcard

/-- Printed segments start with a dot or an opening bracket. -/
theorem head?_flatMap_render {ss : List Segment} {c : Char} (hc : (ss.flatMap Segment.render).head? = some c) :
    c = '.' ∨ c = '[' := by
  cases ss with
  | nil => cases hc
  | cons s ss =>
    cases s with
    | name n =>
      cases hc
      exact Or.inl rfl
    | index i =>
      cases hc
      exact Or.inr rfl
    | wildcard =>
      cases hc
      exact Or.inr rfl

/-- Printed segments are split into just these segments. -/
theorem splits_render {ss : List Segment} (h : ∀ s ∈ ss, SegmentText s.render s) :
    Splits (ss.flatMap Segment.render) (ss.map fun s => (s.render, s)) [] := by
  induction ss with
  | nil => exact .rest stuck_nil
  | cons s ss ih =>
    have hnext := ih fun s hs => h s (List.mem_cons_of_mem _ hs)
    exact .segment (h s List.mem_cons_self) (fun _ _ _ hc => head?_flatMap_render hc) hnext

/-- A path with plain names is read back from its text. -/
theorem parse_text {p : Path} (hplain : p.Plain) (hword : ∀ i, .index i ∈ p.segments → i < Segment.indexLimit) :
    parse p.text = .ok p := by
  have hsplit : Splits (p.segments.flatMap Segment.render) (p.segments.map fun s => (s.render, s)) [] := by
    apply splits_render
    intro s hs
    apply segmentText_render
    · rintro n rfl
      exact hplain n hs
    · rintro i rfl
      exact hword i hs
  have htext : p.text.toList = '$' :: p.segments.flatMap Segment.render := by
    rw [text, String.toList_ofList, render_eq_segments]
  rcases (hsplit.readSegments_eq (Text.byteLength p.text.toList) root).1 rfl with ⟨q, hq, hsegments⟩
  have hqp : q = p := by
    apply segments_inj.1
    simpa [segments, Function.comp_def] using hsegments
  rw [parse_of_dollar htext, hq, hqp]
  rfl

/-! ## Leading zeros -/

/-- Outside brackets nothing is trimmed. -/
theorem trimZeros_append {x : List Char} (hx : '[' ∉ x) (s : List Char) :
    trimZeros false (x ++ s) = x ++ trimZeros false s := by
  induction x with
  | nil => rfl
  | cons c x ih =>
    have hc : c ≠ '[' := fun h => hx (h ▸ List.mem_cons_self)
    have hflag : (c == '[') = false := by simpa using hc
    rw [List.cons_append, trimZeros, hflag, ih fun h => hx (List.mem_cons_of_mem _ h)]
    simp

/-- Behind an opening bracket digits are trimmed to the numeral of their number. -/
theorem trimZeros_digits {x : List Char} (hne : x ≠ []) (hx : ∀ c ∈ x, c.isDigit) (s : List Char) :
    trimZeros true (x ++ ']' :: s) = Text.digits (Text.digitsValue x) ++ trimZeros false (']' :: s) := by
  induction x with
  | nil => exact absurd rfl hne
  | cons c x ih =>
    have hbracket : '[' ∉ c :: x := fun h => absurd (hx _ h) (by decide)
    by_cases hzero : c = '0'
    · subst hzero
      cases x with
      | nil => rfl
      | cons d x =>
        -- a zero in front of a digit does not count
        have hd : d.isDigit := hx d (by simp)
        have hvalue : Text.digitsValue ('0' :: d :: x) = Text.digitsValue (d :: x) := by
          simp [Text.digitsValue, Nat.ofDigitChars_cons]
        have htail := ih (by simp) fun c hc => hx c (List.mem_cons_of_mem _ hc)
        rw [hvalue, ← htail, List.cons_append, trimZeros]
        simp [hd]
    · -- the first digit that is not zero, and all that follow it
      have hflag : (c == '[') = false := by
        simpa using fun h : c = '[' => hbracket (h ▸ List.mem_cons_self)
      have hrest := trimZeros_append (fun h => hbracket (List.mem_cons_of_mem _ h)) (']' :: s)
      rw [Text.digits_digitsValue hzero hx, List.cons_append, trimZeros, hflag, hrest]
      simp [hzero]

theorem SegmentText.trimZeros_append {text : List Char} {segment : Segment} (h : SegmentText text segment)
    (s : List Char) : trimZeros false (text ++ s) = segment.render ++ trimZeros false s := by
  cases h with
  | @name n _ plain =>
    have hbracket : '[' ∉ '.' :: n := by
      intro hmem
      rcases List.mem_cons.1 hmem with hdot | hname
      · exact absurd hdot (by decide)
      · exact (plain _ hname).2 rfl
    rw [Path.trimZeros_append hbracket, Segment.render, String.toList_ofList]
  | @index x nonempty digits _ =>
    have htrim := trimZeros_digits nonempty (fun c hc => isDigit_iff.2 (digits c hc)) s
    simp [trimZeros, htrim, Segment.render]
  | wildcard => rfl

/-- The text of a split without leading zeros is that of its segments. -/
theorem Splits.trimZeros_eq {s r : List Char} {parts : List (List Char × Segment)} (h : Splits s parts r)
    (hr : r = []) : trimZeros false s = (parts.map Prod.snd).flatMap Segment.render := by
  induction h with
  | rest _ =>
    rw [hr]
    rfl
  | segment first _ _ ih => rw [first.trimZeros_append, ih hr, List.map_cons, List.flatMap_cons]

/-- A path that was read is printed as its text without leading zeros. -/
theorem text_of_parse {t : String} {p : Path} (h : parse t = .ok p) : p.text = withoutLeadingZeros t := by
  rcases splits_of_parse h with ⟨s, parts, hs, hsplit, hsegments⟩
  have htrim : trimZeros false t.toList = '$' :: trimZeros false s := by
    rw [hs]
    exact Path.trimZeros_append (x := ['$']) (by decide) s
  rw [text, withoutLeadingZeros, htrim, hsplit.trimZeros_eq rfl, render_eq_segments, hsegments]

/-! ## Printing and reading -/

/-- Reading undoes printing just for the paths with plain names, which include all paths that were read. Printing
undoes reading but for leading zeros, so two texts have one path just where they differ in nothing else. -/
theorem parse_text_eq_ok_iff_plain :
    (∀ p, Built p → (parse p.text = .ok p ↔ p.Plain)) ∧
      (∀ t p, parse t = .ok p → p.Plain ∧ p.text = withoutLeadingZeros t) ∧
      ∀ t u p q, parse t = .ok p → parse u = .ok q →
        (p = q ↔ withoutLeadingZeros t = withoutLeadingZeros u) := by
  refine ⟨?built, fun t p h => ⟨plain_of_parse h, text_of_parse h⟩, ?texts⟩
  case built =>
    intro p hp
    exact ⟨plain_of_parse, fun hplain => parse_text hplain fun _ => hp.index_lt⟩
  case texts =>
    intro t u p q ht hu
    rw [← text_of_parse ht, ← text_of_parse hu]
    constructor
    · intro h
      rw [h]
    · intro h
      -- both paths are read back from the one text
      have hp := parse_text (plain_of_parse ht) fun _ => index_lt_of_parse ht
      have hq := parse_text (plain_of_parse hu) fun _ => index_lt_of_parse hu
      rw [h] at hp
      exact Except.ok.inj (hp.symm.trans hq)

/-- A position with leading zeros behind a name with a closing bracket in it, and a name with a dot in it, which is
read back as two names. -/
theorem parse_text_eq_ok_iff_plain_apart :
    let p := ((field "é]").index 7).wildcard
    let q := field "a.b"
    let t := "$.é][007][*]"
    let u := "$.é][7][*]"
    Built p ∧ p.Plain ∧ parse p.text = .ok p ∧ Built q ∧ parse q.text = .ok ((field "a").key "b") ∧ ¬ q.Plain ∧
      parse t = .ok p ∧ p.text = withoutLeadingZeros t ∧ parse u = .ok p ∧
      withoutLeadingZeros t = withoutLeadingZeros u := by
  intro p q t u
  rcases parse_text_eq_ok_iff_plain with ⟨hbuilt, hread, hequal⟩
  have hp : Built p := .wildcard (.index (.field "é]") (by decide))
  have hq : Built q := .field "a.b"
  have ht : parse t = .ok p := by cbv
  have hu : parse u = .ok p := by cbv
  have hother : parse q.text = .ok ((field "a").key "b") := by cbv
  have hplain : p.Plain := (hread t p ht).1
  have hnot : ¬ q.Plain := by
    intro h
    have hback := (hbuilt q hq).2 h
    rw [hother] at hback
    exact absurd (Except.ok.inj hback) (by decide)
  exact ⟨hp, hplain, (hbuilt p hp).2 hplain, hq, hother, hnot, ht, (hread t p ht).2, hu, (hequal t u p p ht hu).1 rfl⟩

end RecordFilter.Path
