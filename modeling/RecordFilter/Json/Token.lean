import RecordFilter.Decimal.Basic
import RecordFilter.Json.Reader
import RecordFilter.Json.Value
import RecordFilter.Text.Numeral
import RecordFilter.Text.Utf8

namespace RecordFilter.Json

/-! # Numbers and strings in JSON text -/

variable {ε : Type}

open Reader

/-! ## Numbers -/

/-- One or more digits; `cut` is the error of a text that ends before the first one. -/
def digitRun (cut : ReadError ε) : Reader ε (List Char) where
  run s :=
    if s.isEmpty then .error cut
    else if (s.takeWhile Char.isDigit).isEmpty then .error .malformed
    else .ok (s.takeWhile Char.isDigit, s.dropWhile Char.isDigit)
  shorter {s rest ds} h := by
    split at h
    · cases h
    · split at h
      · cases h
      · rename_i hne
        cases h
        have hpos : 0 < (s.takeWhile Char.isDigit).length :=
          List.length_pos_iff.2 (by simpa using hne)
        have hsum : (s.takeWhile Char.isDigit ++ s.dropWhile Char.isDigit).length = s.length := by
          rw [List.takeWhile_append_dropWhile]
        rw [List.length_append] at hsum
        omega

/-- The parts of a number. -/
structure NumberToken where
  negative : Bool
  whole : List Char
  fraction : Option (List Char)
  exponent : Option Int

/-- The digits before the point: no leading zero. -/
def wholePart (cut : ReadError ε) : Reader ε (List Char) :=
  (digitRun cut).check fun ds =>
    match ds with
    | '0' :: _ :: _ => .error .malformed
    | _ => .ok ds

/-- The point and the digits after it. -/
def fractionPart (cut : ReadError ε) : Reader ε (List Char) :=
  (exactly '.').bind fun _ => digitRun cut

/-- A letter, a sign if there is one, and digits. -/
def exponentPart (cut : ReadError ε) : Reader ε Int :=
  (char fun c => c == 'e' || c == 'E').bind fun _ => branch fun s =>
    match s with
    | '-' :: _ => (exactly '-').bind fun _ => (digitRun cut).map fun ds => -(Text.digitsValue ds : Int)
    | '+' :: _ => (exactly '+').bind fun _ => (digitRun cut).map fun ds => (Text.digitsValue ds : Int)
    | _ => (digitRun cut).map fun ds => (Text.digitsValue ds : Int)

/-- A number after its sign; `cut` is the error of one that the end of the text breaks off. -/
def unsignedToken (cut : ReadError ε) (negative : Bool) : Reader ε NumberToken :=
  (((wholePart cut).optionally (· == '.') (fractionPart cut)).optionally
    (fun c => c == 'e' || c == 'E') (exponentPart cut)).map
      fun ((whole, fraction), exponent) => ⟨negative, whole, fraction, exponent⟩

/-- A number, of which only a minus sign may stand in front. -/
def numberToken (cut : ReadError ε) : Reader ε NumberToken :=
  branch fun s =>
    match s with
    | '-' :: _ => (exactly '-').bind fun _ => unsignedToken cut true
    | _ => unsignedToken cut false

/-- The decimal that the digits and the exponent of a number denote. -/
def NumberToken.decimal (t : NumberToken) : Decimal where
  significand := Text.digitsValue (t.whole ++ t.fraction.getD [])
  exponent := t.exponent.getD 0 - (t.fraction.getD []).length

/-- The nearest float, if it is finite. That a token is rounded to the nearest float is an assumption about the JSON
library, which by default rounds as well as it can and only with its feature `float_roundtrip` to the nearest. -/
def NumberToken.float? (t : NumberToken) : Option Number :=
  (t.decimal.toBinary64? t.negative).map .float

/-- The number of a token. Without fraction and exponent it is an integer if it is in range, except that `-0` is the
negative zero. Any other is a float, if that is finite: the nearest, as `NumberToken.float?` assumes. -/
def NumberToken.number? (t : NumberToken) : Option Number :=
  match t.fraction, t.exponent with
  | none, none =>
    let n := Text.digitsValue t.whole
    if t.negative then if n = 0 then t.float? else Number.ofInt? (-(n : Int)) <|> t.float?
    else Number.ofInt? n <|> t.float?
  | _, _ => t.float?

/-- A number whose value is kept. -/
def number : Reader ε Number :=
  (numberToken .unexpectedEnd).check fun t =>
    match t.number? with
    | some n => .ok n
    | none => .error .malformed

/-- A number whose value is not looked at. -/
def anyNumber : Reader ε Unit := (numberToken .malformed).map fun _ => ()

/-! ## Strings -/

/-- The value of a hexadecimal digit of either case. -/
def hexDigit? (c : Char) : Option Nat :=
  if '0' ≤ c ∧ c ≤ '9' then some (c.toNat - '0'.toNat)
  else if 'a' ≤ c ∧ c ≤ 'f' then some (c.toNat - 'a'.toNat + 10)
  else if 'A' ≤ c ∧ c ≤ 'F' then some (c.toNat - 'A'.toNat + 10)
  else none

/-- Four hexadecimal digits. A text of fewer than four bytes has ended too early, whatever is in it. -/
def hex4 : Reader ε Nat where
  run
    | a :: b :: c :: d :: rest =>
      match hexDigit? a, hexDigit? b, hexDigit? c, hexDigit? d with
      | some a, some b, some c, some d => .ok (((a * 16 + b) * 16 + c) * 16 + d, rest)
      | _, _, _, _ => .error .malformed
    | s => if Text.byteLength s < 4 then .error .unexpectedEnd else .error .malformed
  shorter {s rest n} h := by
    split at h
    · split at h
      · cases h
        simp only [List.length_cons]
        omega
      · cases h
    · split at h <;> cases h

/-- The character that the digits after `\u` give. A leading surrogate has to be followed by the escape of a trailing
one, and the two give one character. -/
def codePoint : Reader ε Char :=
  hex4.andThen fun n _ =>
    if 0xDC00 ≤ n ∧ n ≤ 0xDFFF then .stop (.error .malformed)
    else if 0xD800 ≤ n ∧ n ≤ 0xDBFF then
      .more <| (exactly '\\').bind fun _ => (exactly 'u').bind fun _ => hex4.check fun m =>
        if 0xDC00 ≤ m ∧ m ≤ 0xDFFF then .ok (Char.ofNat (0x10000 + (n - 0xD800) * 0x400 + (m - 0xDC00)))
        else .error .malformed
    else .stop (.ok (Char.ofNat n))

/-- The characters that a backslash and one character stand for. -/
def shortEscape? : Char → Option Char
  | '"' => some '"'
  | '\\' => some '\\'
  | '/' => some '/'
  | 'b' => some '\x08'
  | 'f' => some '\x0c'
  | 'n' => some '\n'
  | 'r' => some '\r'
  | 't' => some '\t'
  | _ => none

/-- What follows a backslash; `unicode` reads what follows `\u`. -/
def escaped (unicode : Reader ε Char) : Reader ε Char :=
  (char fun _ => true).andThen fun c _ =>
    if c = 'u' then .more unicode
    else
      match shortEscape? c with
      | some e => .stop (.ok e)
      | none => .stop (.error .malformed)

/-- One character of a string, as it is or escaped. Control characters have to be escaped. -/
def character (unicode : Reader ε Char) : Reader ε Char :=
  (char fun c => 0x20 ≤ c.toNat).andThen fun c _ =>
    if c = '\\' then .more (escaped unicode) else .stop (.ok c)

/-- The characters up to the closing quote, in front of which those of `done` were read, in reverse. -/
def untilQuote (unicode : Reader ε Char) (done : List Char) (s : List Char) :
    Except (ReadError ε) (String × List Char) :=
  match s with
  | [] => .error .unexpectedEnd
  | c :: rest =>
    if c = '"' then .ok (String.ofList done.reverse, rest)
    else
      match h : (character unicode).run (c :: rest) with
      | .error e => .error e
      | .ok (a, rest') =>
        have := (character unicode).shorter h
        untilQuote unicode (a :: done) rest'
termination_by s.length
decreasing_by
  simp only [List.length_cons] at this ⊢
  omega

theorem length_lt_of_untilQuote {unicode : Reader ε Char} {done s rest : List Char} {t : String}
    (h : untilQuote unicode done s = .ok (t, rest)) : rest.length < s.length := by
  fun_induction untilQuote unicode done s with
  | case1 => cases h
  | case2 => cases h; exact Nat.lt_succ_self _
  | case3 => cases h
  | case4 done c rest₁ hc a rest₂ hrun hlt ih => exact Nat.lt_trans (ih h) hlt

/-- A string between quotes. -/
def quoted (unicode : Reader ε Char) : Reader ε String :=
  (exactly '"').bind fun _ => ⟨untilQuote unicode [], length_lt_of_untilQuote⟩

/-- A string whose characters are kept. -/
def string : Reader ε String := quoted codePoint

/-- A string whose characters are not looked at: surrogates may stand alone. -/
def anyString : Reader ε String := quoted (hex4.map fun _ => '?')

end RecordFilter.Json
