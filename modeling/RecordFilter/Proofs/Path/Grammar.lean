import RecordFilter.Path.Parser
import RecordFilter.Proofs.Outcome
import RecordFilter.Proofs.Text.Runs
import Mathlib.Data.List.TakeWhile

namespace RecordFilter.Path

/-! # The grammar of paths

A path text is `$` and then segment texts (`SegmentText`). Whatever stands behind `$` is split from the left into segment
texts and a rest that begins with none (`Splits`), in one way only. Reading follows this split: it ends well if there is
no rest, and otherwise the fault is told by the rest (`FaultOf`). What carries this is that reading one segment either
takes off the segment text that the split begins with, or fails where no segment text begins (`readSegment_cases`).
-/

/-! ## The grammar -/

/-- The texts of single segments. -/
inductive SegmentText : List Char → Segment → Prop where
  /-- A dot and a name, which is not empty and has neither a dot nor an opening bracket in it. -/
  | name {n : List Char} (nonempty : n ≠ []) (plain : ∀ c ∈ n, c ≠ '.' ∧ c ≠ '[') :
      SegmentText ('.' :: n) (.name (String.ofList n))
  /-- A position in brackets: decimal digits, with or without leading zeros, of a 64-bit number. -/
  | index {x : List Char} (nonempty : x ≠ []) (digits : ∀ c ∈ x, '0' ≤ c ∧ c ≤ '9')
      (bounded : Text.digitsValue x < 2 ^ 64) :
      SegmentText ('[' :: (x ++ [']'])) (.index (Text.digitsValue x))
  | wildcard : SegmentText ['[', '*', ']'] .wildcard

/-- No segment text begins here. -/
def Stuck (r : List Char) : Prop :=
  ∀ text segment after, SegmentText text segment → r ≠ text ++ after

/-- A name does not go on: what follows it is a dot, an opening bracket, or nothing. -/
def EndsBefore (segment : Segment) (after : List Char) : Prop :=
  ∀ n, segment = .name n → ∀ c, after.head? = some c → c = '.' ∨ c = '['

/-- A text is split from the left into segment texts, each with its segment, and a rest that begins with none. -/
inductive Splits : List Char → List (List Char × Segment) → List Char → Prop where
  | rest {r : List Char} (stuck : Stuck r) : Splits r [] r
  | segment {text : List Char} {segment : Segment} {s : List Char} {parts : List (List Char × Segment)}
      {r : List Char} (first : SegmentText text segment) (ends : EndsBefore segment s) (next : Splits s parts r) :
      Splits (text ++ s) ((text, segment) :: parts) r

/-- What is wrong with a rest in front of which are `position` bytes. -/
inductive FaultOf (position : Nat) : List Char → Fault → Prop where
  | emptyName {r : List Char} : FaultOf position ('.' :: r) .emptyName
  | unclosedBracket {r : List Char} (unclosed : ']' ∉ r) : FaultOf position ('[' :: r) .unclosedBracket
  /-- The text up to the first closing bracket is no position. -/
  | invalidIndex {x r : List Char} (first : ']' ∉ x) :
      FaultOf position ('[' :: (x ++ ']' :: r)) (.invalidIndex (String.ofList x))
  | unexpectedCharacter {c : Char} {r : List Char} (notDot : c ≠ '.') (notBracket : c ≠ '[') :
      FaultOf position (c :: r) (.unexpectedCharacter position)

theorem SegmentText.head?_of_name {text : List Char} {n : String} (h : SegmentText text (.name n)) :
    text.head? = some '.' := by
  cases h
  rfl

theorem isNameChar_iff {c : Char} : isNameChar c ↔ c ≠ '.' ∧ c ≠ '[' := by
  simp [isNameChar]

theorem isNameChar_eq_false_iff {c : Char} : isNameChar c = false ↔ c = '.' ∨ c = '[' := by
  rw [isNameChar, Bool.and_eq_false_iff]
  simp

theorem isDigit_iff {c : Char} : c.isDigit ↔ '0' ≤ c ∧ c ≤ '9' := by
  simp [Char.isDigit, Char.le_def]

/-- What stands in brackets is read if the brackets with it are a segment text. -/
theorem ofBracket?_eq_some_iff {x : List Char} {segment : Segment} :
    Segment.ofBracket? x = some segment ↔ SegmentText ('[' :: (x ++ [']'])) segment := by
  constructor
  · intro h
    unfold Segment.ofBracket? at h
    split at h
    · next hstar =>
      cases h
      rw [hstar]
      exact .wildcard
    · split at h
      · next i hi =>
        split at h
        · next hbound =>
          cases h
          obtain ⟨hne, hdigits, rfl⟩ := Text.natural?_eq_some_iff.1 hi
          exact .index hne (fun c hc => isDigit_iff.1 (hdigits c hc)) hbound
        · cases h
      · cases h
  · intro h
    generalize ht : '[' :: (x ++ [']']) = t at h
    cases h with
    | name => cases ht
    | @index y nonempty digits bounded =>
      have hx : x = y := List.append_cancel_right (List.cons.inj ht).2
      subst hx
      have hstar : x ≠ ['*'] := by
        rintro rfl
        have hdigit := digits '*' List.mem_cons_self
        exact absurd hdigit (by decide)
      have hread : Text.natural? x = some (Text.digitsValue x) :=
        Text.natural?_eq_some_iff.2 ⟨nonempty, fun c hc => isDigit_iff.2 (digits c hc), rfl⟩
      simp only [Segment.ofBracket?, hstar, if_false, hread]
      exact if_pos bounded
    | wildcard =>
      have hx : x = ['*'] := List.append_cancel_right (List.cons.inj ht).2
      rw [hx]
      rfl

/-! ## Reading one segment -/

theorem readSegment_name {n after : List Char} (position : Nat) (hne : n ≠ [])
    (hplain : ∀ c ∈ n, c ≠ '.' ∧ c ≠ '[') (hafter : ∀ c, after.head? = some c → c = '.' ∨ c = '[') :
    readSegment position ('.' :: (n ++ after)) = .ok (.name (String.ofList n), after) := by
  have hstop : ∀ c, after.head? = some c → isNameChar c = false := by
    intro c hc
    exact isNameChar_eq_false_iff.2 (hafter c hc)
  obtain ⟨htake, hdrop⟩ :=
    Text.takeWhile_dropWhile_append (fun c hc => isNameChar_iff.2 (hplain c hc)) hstop
  simp only [readSegment, htake, hdrop]
  simp [hne]

/-- What is in brackets ends at the first closing one. -/
theorem takeWhile_dropWhile_bracket {x : List Char} (hx : ']' ∉ x) (after : List Char) :
    (x ++ ']' :: after).takeWhile (· != ']') = x ∧
      (x ++ ']' :: after).dropWhile (· != ']') = ']' :: after := by
  apply Text.takeWhile_dropWhile_append
  · intro c hc
    have hne : c ≠ ']' := fun h => hx (h ▸ hc)
    simpa using hne
  · intro c hc
    cases hc
    rfl

theorem readSegment_bracket {x : List Char} {segment : Segment} (position : Nat) (hx : ']' ∉ x)
    (h : Segment.ofBracket? x = some segment) (after : List Char) :
    readSegment position ('[' :: (x ++ ']' :: after)) = .ok (segment, after) := by
  obtain ⟨htake, hdrop⟩ := takeWhile_dropWhile_bracket hx after
  simp only [readSegment, htake, hdrop, h]

theorem readSegment_bracket_invalid {x : List Char} (position : Nat) (hx : ']' ∉ x)
    (h : Segment.ofBracket? x = none) (after : List Char) :
    readSegment position ('[' :: (x ++ ']' :: after)) = .error (.invalidIndex (String.ofList x)) := by
  obtain ⟨htake, hdrop⟩ := takeWhile_dropWhile_bracket hx after
  simp only [readSegment, htake, hdrop, h]

theorem readSegment_unclosed {s : List Char} (position : Nat) (hs : ']' ∉ s) :
    readSegment position ('[' :: s) = .error .unclosedBracket := by
  have hdrop : s.dropWhile (· != ']') = [] := by
    rw [List.dropWhile_eq_nil_iff]
    intro c hc
    have hne : c ≠ ']' := fun h => hs (h ▸ hc)
    simpa using hne
  simp only [readSegment, hdrop]

/-- A segment text that ends where it has to is taken off as its segment. -/
theorem readSegment_segmentText {text after : List Char} {segment : Segment} (position : Nat)
    (htext : SegmentText text segment) (hends : EndsBefore segment after) :
    readSegment position (text ++ after) = .ok (segment, after) := by
  have hbracket : ∀ x, ']' ∉ x → SegmentText ('[' :: (x ++ [']'])) segment →
      readSegment position ('[' :: (x ++ [']']) ++ after) = .ok (segment, after) := by
    intro x hx hinner
    have happend : '[' :: (x ++ [']']) ++ after = '[' :: (x ++ ']' :: after) := by simp
    rw [happend]
    exact readSegment_bracket position hx (ofBracket?_eq_some_iff.2 hinner) after
  cases htext with
  | name nonempty plain => exact readSegment_name position nonempty plain (hends _ rfl)
  | @index x nonempty digits bounded =>
    have hx : ']' ∉ x := by
      intro hmem
      exact absurd (digits ']' hmem) (by decide)
    exact hbracket x hx (.index nonempty digits bounded)
  | wildcard => exact hbracket ['*'] (by decide) .wildcard

/-- Where a segment text begins, a segment is read, if perhaps a longer name. -/
theorem stuck_of_readSegment_eq_error {position : Nat} {s : List Char} {fault : Fault}
    (h : readSegment position s = .error fault) : Stuck s := by
  rintro text segment after htext rfl
  cases htext with
  | @name n nonempty plain =>
    obtain ⟨c, n, rfl⟩ := List.exists_cons_of_ne_nil nonempty
    have hc : isNameChar c = true := isNameChar_iff.2 (plain c List.mem_cons_self)
    simp [readSegment, hc] at h
  | index nonempty digits bounded =>
    rw [readSegment_segmentText position (.index nonempty digits bounded) (fun n hn => nomatch hn)] at h
    cases h
  | wildcard =>
    rw [readSegment_segmentText position .wildcard (fun n hn => nomatch hn)] at h
    cases h

/-- Reading a segment takes off a segment text, or fails where no segment text begins. -/
theorem readSegment_cases (position : Nat) {s : List Char} (hs : s ≠ []) :
    (∃ text segment after, s = text ++ after ∧ SegmentText text segment ∧ EndsBefore segment after ∧
        readSegment position s = .ok (segment, after)) ∨
      ∃ fault, FaultOf position s fault ∧ readSegment position s = .error fault := by
  obtain ⟨c, s, rfl⟩ := List.exists_cons_of_ne_nil hs
  by_cases hdot : c = '.'
  · subst hdot
    have hplain : ∀ c ∈ s.takeWhile isNameChar, c ≠ '.' ∧ c ≠ '[' := by
      intro c hc
      exact isNameChar_iff.1 (List.mem_takeWhile_imp hc)
    have hends : ∀ c, (s.dropWhile isNameChar).head? = some c → c = '.' ∨ c = '[' := by
      intro c hc
      have hstop := List.head?_dropWhile_not isNameChar s
      rw [hc] at hstop
      exact isNameChar_eq_false_iff.1 hstop
    by_cases hname : s.takeWhile isNameChar = []
    · right
      refine ⟨.emptyName, .emptyName, ?_⟩
      simp [readSegment, hname]
    · left
      have hsplit : s = s.takeWhile isNameChar ++ s.dropWhile isNameChar :=
        List.takeWhile_append_dropWhile.symm
      have hread := readSegment_name position hname hplain hends
      rw [← hsplit] at hread
      refine ⟨_, _, _, ?_, .name hname hplain, fun _ _ => hends, hread⟩
      rw [List.cons_append, ← hsplit]
  · by_cases hbracket : c = '['
    · subst hbracket
      by_cases hclose : ']' ∈ s
      · obtain ⟨x, after, rfl, hx⟩ := List.eq_append_cons_of_mem hclose
        cases hinner : Segment.ofBracket? x with
        | none =>
          right
          exact ⟨_, .invalidIndex hx, readSegment_bracket_invalid position hx hinner after⟩
        | some segment =>
          left
          have htext := ofBracket?_eq_some_iff.1 hinner
          refine ⟨_, segment, after, ?_, htext, ?_, readSegment_bracket position hx hinner after⟩
          · simp
          · -- what is in brackets is no name
            rintro n rfl
            cases htext.head?_of_name
      · right
        exact ⟨.unclosedBracket, .unclosedBracket hclose, readSegment_unclosed position hclose⟩
    · right
      refine ⟨_, .unexpectedCharacter hdot hbracket, ?_⟩
      unfold readSegment
      split
      · next heq => exact absurd (List.cons.inj heq).1 hdot
      · next heq => exact absurd (List.cons.inj heq).1 hbracket
      · rfl

/-! ## Splitting -/

theorem stuck_nil : Stuck [] := by
  rintro text segment after htext heq
  rw [(List.append_eq_nil_iff.1 heq.symm).1] at htext
  cases htext

/-- The parts of a split are the text. -/
theorem Splits.eq_append {s r : List Char} {parts : List (List Char × Segment)} (h : Splits s parts r) :
    s = (parts.map Prod.fst).flatten ++ r := by
  induction h with
  | rest _ => rfl
  | segment _ _ _ ih => rw [List.map_cons, List.flatten_cons, List.append_assoc, ← ih]

/-- Every text can be split. -/
theorem exists_splits (s : List Char) : ∃ parts r, Splits s parts r := by
  by_cases hs : s = []
  · rw [hs]
    exact ⟨[], [], .rest stuck_nil⟩
  · rcases readSegment_cases 0 hs with ⟨text, segment, after, rfl, htext, hends, hread⟩ | ⟨fault, _, hread⟩
    · have hlength := length_lt_of_readSegment hread
      obtain ⟨parts, r, hsplit⟩ := exists_splits after
      exact ⟨_, r, .segment htext hends hsplit⟩
    · exact ⟨[], s, .rest (stuck_of_readSegment_eq_error hread)⟩
termination_by s.length

/-- A text can be split in one way only. -/
theorem Splits.unique {s r r' : List Char} {parts parts' : List (List Char × Segment)}
    (h : Splits s parts r) (h' : Splits s parts' r') : parts' = parts ∧ r' = r := by
  induction h generalizing parts' r' with
  | rest stuck =>
    cases h' with
    | rest _ => exact ⟨rfl, rfl⟩
    | segment first _ _ => exact absurd rfl (stuck _ _ _ first)
  | @segment text segment s parts r first ends _ ih =>
    generalize hs : text ++ s = u at h'
    cases h' with
    | rest stuck => exact absurd hs.symm (stuck _ _ _ first)
    | @segment text' segment' s' parts' _ first' ends' next' =>
      -- reading takes off both first segments, so they are the same
      have hread := readSegment_segmentText 0 first ends
      rw [hs, readSegment_segmentText 0 first' ends'] at hread
      cases hread
      have htext : text = text' := List.append_cancel_right hs
      obtain ⟨hparts, hr⟩ := ih next'
      exact ⟨by rw [htext, hparts], hr⟩

/-- A character that begins no segment comes first, or comes after a bracket. -/
theorem Splits.closes_of_unexpected {s r : List Char} {parts : List (List Char × Segment)}
    (h : Splits s parts r) {c : Char} (hc : r.head? = some c) (hdot : c ≠ '.') (hbracket : c ≠ '[') :
    parts = [] ∨ ∃ text segment, parts.getLast? = some (text, segment) ∧ text.getLast? = some ']' := by
  induction h with
  | rest _ => exact Or.inl rfl
  | @segment text segment s parts r first ends next ih =>
    right
    rcases ih hc with rfl | ⟨text', segment', hlast, hclose⟩
    · refine ⟨text, segment, rfl, ?_⟩
      have hs : s = r := next.eq_append
      cases first with
      | name _ _ =>
        -- a name would go on with this character, or end before another one
        rcases ends _ rfl c (hs ▸ hc) with heq | heq
        · exact absurd heq hdot
        · exact absurd heq hbracket
      | @index x _ _ _ =>
        show (('[' :: x) ++ [']']).getLast? = some ']'
        exact List.getLast?_concat
      | wildcard => rfl
    · refine ⟨text', segment', ?_, hclose⟩
      rw [List.getLast?_cons, hlast]
      rfl

/-! ## Reading -/

theorem readSegments_nil (total : Nat) (p : Path) : readSegments total p [] = .ok p := by
  rw [readSegments]
  rfl

theorem readSegments_of_ok {total : Nat} {s after : List Char} {segment : Segment}
    (h : readSegment (total - Text.byteLength s) s = .ok (segment, after)) (p : Path) :
    readSegments total p s = readSegments total (p.child segment) after := by
  have hs : s.isEmpty = false := by
    cases s with
    | nil => cases h
    | cons c s => rfl
  rw [readSegments, hs]
  split
  · next heq => cases heq
  · split
    · next heq => cases h.symm.trans heq
    · next heq =>
      cases h.symm.trans heq
      rfl

theorem readSegments_of_error {total : Nat} {s : List Char} {fault : Fault} (hs : s ≠ [])
    (h : readSegment (total - Text.byteLength s) s = .error fault) (p : Path) :
    readSegments total p s = .error fault := by
  have hempty : s.isEmpty = false := by simpa using hs
  rw [readSegments, hempty]
  split
  · next heq => cases heq
  · split
    · next heq =>
      cases h.symm.trans heq
      rfl
    · next heq => cases h.symm.trans heq

/-- Reading goes on from `p` with the segments of the split. It fails at the rest, if there is one. -/
theorem Splits.readSegments_eq {s r : List Char} {parts : List (List Char × Segment)}
    (h : Splits s parts r) (total : Nat) (p : Path) :
    (r = [] → ∃ q, readSegments total p s = .ok q ∧ q.segments = p.segments ++ parts.map Prod.snd) ∧
      (r ≠ [] → ∃ fault, FaultOf (total - Text.byteLength r) r fault ∧
        readSegments total p s = .error fault) := by
  induction h generalizing p with
  | @rest r stuck =>
    constructor
    · rintro rfl
      exact ⟨p, readSegments_nil total p, by simp⟩
    · intro hr
      rcases readSegment_cases (total - Text.byteLength r) hr with
        ⟨text, segment, after, heq, htext, _⟩ | ⟨fault, hfault, hread⟩
      · exact absurd heq (stuck _ _ _ htext)
      · exact ⟨fault, hfault, readSegments_of_error hr hread p⟩
  | @segment text segment s parts r first ends _ ih =>
    have hread := readSegment_segmentText (total - Text.byteLength (text ++ s)) first ends
    rw [readSegments_of_ok hread]
    obtain ⟨hok, herror⟩ := ih (p.child segment)
    refine ⟨?_, herror⟩
    intro hr
    obtain ⟨q, hq, hsegments⟩ := hok hr
    refine ⟨q, hq, ?_⟩
    rw [hsegments, segments, List.map_cons, List.append_assoc]
    rfl

theorem parse_of_not_dollar {t : String} (h : ∀ s, t.toList ≠ '$' :: s) :
    parse t = .error (.malformed t .missingRoot) := by
  have hread : read t.toList = .error .missingRoot := by
    unfold read
    split
    · next s heq => exact absurd heq (h s)
    · rfl
  rw [parse, hread]
  rfl

theorem parse_of_dollar {t : String} {s : List Char} (h : t.toList = '$' :: s) :
    parse t = (readSegments (Text.byteLength t.toList) root s).mapError (.malformed t) := by
  rw [parse, h]
  rfl

/-- Reading a path follows the grammar. A text without `$` in front is refused. What stands behind `$` is split from the
left in just one way: if there is no rest, the path has the segments of the split, and otherwise the rest says what is
wrong, at the number of bytes in front of it. -/
theorem parse_follows_splits (t : String) :
    ((∀ s, t.toList ≠ '$' :: s) → parse t = .error (.malformed t .missingRoot)) ∧
      ∀ s, t.toList = '$' :: s → ∃ parts r, Splits s parts r ∧
        (∀ parts' r', Splits s parts' r' → parts' = parts ∧ r' = r) ∧
        (r = [] → ∃ p, parse t = .ok p ∧ p.segments = parts.map Prod.snd) ∧
        (r ≠ [] → ∃ before fault, t.toList = before ++ r ∧
          FaultOf (String.ofList before).utf8ByteSize r fault ∧ parse t = .error (.malformed t fault)) ∧
        (∀ c, r.head? = some c → c ≠ '.' → c ≠ '[' →
          parts = [] ∨ ∃ text segment, parts.getLast? = some (text, segment) ∧ text.getLast? = some ']') := by
  constructor
  · exact parse_of_not_dollar
  · intro s hs
    obtain ⟨parts, r, hsplit⟩ := exists_splits s
    obtain ⟨hok, herror⟩ := hsplit.readSegments_eq (Text.byteLength t.toList) root
    refine ⟨parts, r, hsplit, fun _ _ h' => hsplit.unique h', ?ok, ?error,
      fun c => hsplit.closes_of_unexpected⟩
    case ok =>
      intro hr
      obtain ⟨q, hq, hsegments⟩ := hok hr
      refine ⟨q, ?_, hsegments⟩
      rw [parse_of_dollar hs, hq]
      rfl
    case error =>
      intro hr
      obtain ⟨fault, hfault, hread⟩ := herror hr
      have hbefore : t.toList = '$' :: (parts.map Prod.fst).flatten ++ r := by
        rw [hs, List.cons_append, ← hsplit.eq_append]
      refine ⟨'$' :: (parts.map Prod.fst).flatten, fault, hbefore, ?_, ?_⟩
      · rw [hbefore, Text.byteLength_append, Nat.add_sub_cancel] at hfault
        rw [← Text.byteLength_eq_utf8ByteSize]
        exact hfault
      · rw [parse_of_dollar hs, hread]
        rfl

/-- A name with a closing bracket in it, a position with a leading zero, and a character that begins no segment, in front
of which there are ten bytes. -/
theorem parse_follows_splits_unexpected :
    let t := "$.a]é[07]b"
    let s := ['.', 'a', ']', 'é', '[', '0', '7', ']', 'b']
    let parts := [(['.', 'a', ']', 'é'], Segment.name "a]é"), (['[', '0', '7', ']'], Segment.index 7)]
    (∀ s, "a.b".toList ≠ '$' :: s) ∧ parse "a.b" = .error (.malformed "a.b" .missingRoot) ∧
      t.toList = '$' :: s ∧ Splits s parts ['b'] ∧
      parse t = .error (.malformed t (.unexpectedCharacter 10)) ∧
      ∃ before fault, t.toList = before ++ ['b'] ∧
        FaultOf (String.ofList before).utf8ByteSize ['b'] fault ∧ parse t = .error (.malformed t fault) := by
  intro t s parts
  have hroot := (parse_follows_splits "a.b").1
  have hsplits := (parse_follows_splits t).2
  have hno : ∀ s, "a.b".toList ≠ '$' :: s := by
    intro s hs
    cases hs
  have ht : t.toList = '$' :: s := by cbv
  have hstuck : Stuck ['b'] := by
    have hread : readSegment 0 ['b'] = .error (.unexpectedCharacter 0) := rfl
    exact stuck_of_readSegment_eq_error hread
  have hindex : SegmentText ['[', '0', '7', ']'] (.index 7) :=
    .index (x := ['0', '7']) (by simp) (by simp) (by decide)
  have hname : SegmentText ['.', 'a', ']', 'é'] (.name "a]é") :=
    .name (n := ['a', ']', 'é']) (by simp) (by simp)
  have hends : EndsBefore (.name "a]é") ['[', '0', '7', ']', 'b'] := by
    intro n _ c hc
    cases hc
    exact Or.inr rfl
  have hsplit : Splits s parts ['b'] :=
    .segment hname hends (.segment hindex (fun n hn => nomatch hn) (.rest hstuck))
  obtain ⟨parts', r, _, hunique, _, herror, _⟩ := hsplits s ht
  obtain ⟨_, hr⟩ := hunique parts ['b'] hsplit
  subst hr
  exact ⟨hno, hroot hno, ht, hsplit, by cbv, herror (by decide)⟩

end RecordFilter.Path
