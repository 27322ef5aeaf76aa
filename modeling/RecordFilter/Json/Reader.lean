namespace RecordFilter.Json

/-! # Readers of JSON text

A reader takes something off the start of a text and returns the rest, which is shorter: this is what ends the
loops over the items of arrays and the members of objects. The first thing wrong in text order is the error.
-/

/-- Why a text was not read. -/
inductive ReadError (ε : Type) where
  /-- The text ended too early. -/
  | unexpectedEnd
  /-- The text is not JSON, or is more than its reader takes. -/
  | malformed
  /-- The text is JSON, but not of the kind wanted. -/
  | unfit (reason : ε)
deriving DecidableEq, Repr

/-- A reader of something of type `α`. -/
structure Reader (ε α : Type) where
  run : List Char → Except (ReadError ε) (α × List Char)
  shorter : ∀ {s rest : List Char} {a : α}, run s = .ok (a, rest) → rest.length < s.length

/-- Blanks between tokens: only these four. -/
def isBlank (c : Char) : Bool := c == ' ' || c == '\t' || c == '\n' || c == '\r'

/-- A text without the blanks at its start. -/
def skipBlanks (s : List Char) : List Char := s.dropWhile isBlank

theorem length_skipBlanks_le (s : List Char) : (skipBlanks s).length ≤ s.length :=
  (List.dropWhile_sublist _).length_le

namespace Reader

variable {ε α β σ : Type}

/-- Reads nothing, for a reason that does not depend on the text. -/
def fail (e : ReadError ε) : Reader ε α where
  run _ := .error e
  shorter h := nomatch h

/-- Reads with a reader chosen by the text. -/
def branch (choose : List Char → Reader ε α) : Reader ε α where
  run s := (choose s).run s
  shorter h := (choose _).shorter h

/-- Reads after blanks. -/
def afterBlanks (r : Reader ε α) : Reader ε α where
  run s := r.run (skipBlanks s)
  shorter h := Nat.lt_of_lt_of_le (r.shorter h) (length_skipBlanks_le _)

/-- How a reader goes on after its first part: it stops, or reads more. -/
inductive Step (ε β : Type) where
  | stop (result : Except (ReadError ε) β)
  | more (next : Reader ε β)

/-- Reads a first part and then goes on as that part and the rest of the text say. -/
def andThen (r : Reader ε α) (step : α → List Char → Step ε β) : Reader ε β where
  run s :=
    match r.run s with
    | .error e => .error e
    | .ok (a, rest) =>
      match step a rest with
      | .stop (.error e) => .error e
      | .stop (.ok b) => .ok (b, rest)
      | .more next => next.run rest
  shorter {s rest b} h := by
    split at h
    · cases h
    · rename_i a mid hmid
      have hfirst := r.shorter hmid
      split at h
      · cases h
      · cases h
        exact hfirst
      · rename_i next _
        exact Nat.lt_trans (next.shorter h) hfirst

/-- Reads one thing and then another that may depend on it. -/
def bind (r : Reader ε α) (next : α → Reader ε β) : Reader ε β :=
  r.andThen fun a _ => .more (next a)

/-- Reads and then converts or refuses what was read. -/
def check (r : Reader ε α) (f : α → Except (ReadError ε) β) : Reader ε β :=
  r.andThen fun a _ => .stop (f a)

/-- Reads and then converts what was read. -/
def map (f : α → β) (r : Reader ε α) : Reader ε β := r.check fun a => .ok (f a)

/-- Converts what will have been read in the end. -/
def Step.map (f : α → β) : Step ε α → Step ε β
  | .stop result => .stop (result.map f)
  | .more next => .more (next.map f)

/-- Reads a second part too if the first is followed by a character that starts one. -/
def optionally (r : Reader ε α) (starts : Char → Bool) (next : Reader ε β) :
    Reader ε (α × Option β) :=
  r.andThen fun a rest =>
    match rest with
    | c :: _ => if starts c then .more (next.map fun b => (a, some b)) else .stop (.ok (a, none))
    | [] => .stop (.ok (a, none))

/-- Reads one character that a test accepts. -/
def char (accepts : Char → Bool) : Reader ε Char where
  run
    | [] => .error .unexpectedEnd
    | c :: rest => if accepts c then .ok (c, rest) else .error .malformed
  shorter {s rest c} h := by
    split at h
    · cases h
    · split at h
      · cases h
        exact Nat.lt_succ_self _
      · cases h

/-- Reads one given character. -/
def exactly (c : Char) : Reader ε Char := char (· == c)

/-- Reads a given character and then the characters of a word. -/
def word (first : Char) : List Char → Reader ε Unit
  | [] => (exactly first).map fun _ => ()
  | c :: cs => (exactly first).bind fun _ => word c cs

/-- Goes on after a piece: a comma leads to the next piece, the closing character ends the list. -/
def pieces (close : Char) (piece : σ → Reader ε σ) (st : σ) (s : List Char) :
    Except (ReadError ε) (σ × List Char) :=
  match h : (piece st).run s with
  | .error e => .error e
  | .ok (st', rest) =>
    match hrest : skipBlanks rest with
    | [] => .error .unexpectedEnd
    | c :: rest' =>
      if c = close then .ok (st', rest')
      else if c = ',' then
        have : rest'.length < s.length := by
          have hpiece := (piece st).shorter h
          have hblank := length_skipBlanks_le rest
          simp only [hrest, List.length_cons] at hblank
          omega
        pieces close piece st' rest'
      else .error .malformed
termination_by s.length

theorem length_lt_of_pieces {close : Char} {piece : σ → Reader ε σ} {st st' : σ}
    {s rest : List Char} (h : pieces close piece st s = .ok (st', rest)) :
    rest.length < s.length := by
  fun_induction pieces close piece st s with
  | case1 => cases h
  | case2 => cases h
  | case3 st s st₁ mid hmid rest' hrest =>
    cases h
    have hpiece := (piece st).shorter hmid
    have hblank := length_skipBlanks_le mid
    simp only [hrest, List.length_cons] at hblank
    omega
  | case4 st s st₁ mid hmid rest' hrest hclose hlt ih => exact Nat.lt_trans (ih h) hlt
  | case5 => cases h

/-- Reads pieces separated by commas between an opening and a closing character, none or more. Each piece is read
from what the pieces before it made. -/
def delimited (start close : Char) (piece : σ → Reader ε σ) (st : σ) : Reader ε σ :=
  (exactly start).bind fun _ => afterBlanks
    { run
        | [] => .error .unexpectedEnd
        | c :: rest => if c = close then .ok (st, rest) else pieces close piece st (c :: rest)
      shorter {s rest st'} h := by
        split at h
        · cases h
        · split at h
          · cases h
            exact Nat.lt_succ_self _
          · exact length_lt_of_pieces h }

/-- Reads an array, one item after the other. -/
def array (item : Reader ε α) : Reader ε (List α) :=
  (delimited '[' ']' (fun items => item.map (· :: items)) []).map List.reverse

/-- Reads an object, one member after the other. -/
def object (member : Reader ε α) : Reader ε (List α) :=
  (delimited '{' '}' (fun members => member.map (· :: members)) []).map List.reverse

/-- Reads a text to its end. -/
def whole (r : Reader ε α) (s : List Char) : Except (ReadError ε) α :=
  match r.run s with
  | .error e => .error e
  | .ok (a, rest) => if (skipBlanks rest).isEmpty then .ok a else .error .malformed

end Reader

end RecordFilter.Json
