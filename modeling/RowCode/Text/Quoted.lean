import RowCode.Text.Digits
import RowCode.Text.Unseen

/-!
# Quoted texts

Two quoted forms. Diagnostics (`quoted`) escape quotes, backslashes and everything that cannot be
seen. Interchange (`exchangeQuoted`) escapes what JSON forbids inside a string and nothing else.
-/

namespace RowCode.Text

/-- A character in a diagnostic. -/
def escape (c : Char) : List Char :=
  match c with
  | '\x00' => ['\\', '0']
  | '\t' => ['\\', 't']
  | '\n' => ['\\', 'n']
  | '\r' => ['\\', 'r']
  | '"' => ['\\', '"']
  | '\\' => ['\\', '\\']
  | c => if isUnseen c then '\\' :: 'u' :: '\x7b' :: hexNumber c.toNat ++ ['\x7d'] else [c]

/-- A text between quotes, for diagnostics. -/
def quoted (s : List Char) : List Char :=
  '"' :: s.flatMap escape ++ ['"']

/-- A character inside a JSON string. -/
def exchangeEscape (c : Char) : List Char :=
  match c with
  | '"' => ['\\', '"']
  | '\\' => ['\\', '\\']
  | '\x08' => ['\\', 'b']
  | '\x0c' => ['\\', 'f']
  | '\n' => ['\\', 'n']
  | '\r' => ['\\', 'r']
  | '\t' => ['\\', 't']
  | c =>
    if c.toNat < 0x20 then
      '\\' :: 'u' :: '0' :: '0' :: hexNumber (c.toNat / 16) ++ hexNumber (c.toNat % 16)
    else [c]

/-- A text as a JSON string. -/
def exchangeQuoted (s : List Char) : List Char :=
  '"' :: s.flatMap exchangeEscape ++ ['"']

end RowCode.Text
