import RecordFilter.Text.Hidden

namespace RecordFilter.Text

/-! # Texts with every character made visible -/

/-- A character as it stands in a quoted text. -/
def visibleChar (c : Char) : List Char :=
  if c = '\x00' then ['\\', '0']
  else if c = '\t' then ['\\', 't']
  else if c = '\r' then ['\\', 'r']
  else if c = '\n' then ['\\', 'n']
  else if c = '"' then ['\\', '"']
  else if c = '\\' then ['\\', '\\']
  else if isHidden c then ['\\', 'u', '\x7b'] ++ Nat.toDigits 16 c.toNat ++ ['\x7d']
  else [c]

/-- A text between quotes in which every character is visible. -/
def visible (s : String) : String :=
  String.ofList ('"' :: s.toList.flatMap visibleChar ++ ['"'])

/-- An accent and a filler are spelled out; a letter that only changes the one before it is not. -/
example : visible "e\u0301\u3164\uff9e" = "\"e\\u\x7b301\x7d\\u\x7b3164\x7d\uff9e\"" := by
  decide +kernel

end RecordFilter.Text
