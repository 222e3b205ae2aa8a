import RowCode.Json.Number

/-!
# Tokens of JSON

A JSON text as a list of tokens, the blanks between them dropped. Strings are decoded here:
escapes are replaced by what they stand for, two of them by one character where they name the
halves of a surrogate pair. The token remembers whether there were any. A text with an open string,
an unknown escape, a bare control character or a word that JSON does not have is no list of tokens.
-/

namespace RowCode.Json

inductive Token where
  | openBracket
  | closeBracket
  | openBrace
  | closeBrace
  | comma
  | colon
  | null
  | bool (b : Bool)
  | number (n : Number)
  /-- The characters, and whether none of them was escaped. -/
  | string (s : List Char) (plain : Bool)
deriving Repr, DecidableEq

/-- Space, line feed, carriage return and tab. -/
def isBlank (c : Char) : Bool :=
  c == ' ' || c == '\n' || c == '\r' || c == '\t'

def hexDigit? (c : Char) : Option Nat :=
  if '0' ≤ c ∧ c ≤ '9' then some (c.toNat - 48)
  else if 'a' ≤ c ∧ c ≤ 'f' then some (c.toNat - 87)
  else if 'A' ≤ c ∧ c ≤ 'F' then some (c.toNat - 55)
  else none

/-- Four hexadecimal digits. -/
def readHex4? : List Char → Option (Nat × List Char)
  | a :: b :: c :: d :: s => do
    let a ← hexDigit? a
    let b ← hexDigit? b
    let c ← hexDigit? c
    let d ← hexDigit? d
    some (((16 * a + b) * 16 + c) * 16 + d, s)
  | _ => none

def isHighSurrogate (n : Nat) : Bool :=
  0xD800 ≤ n && n < 0xDC00

def isLowSurrogate (n : Nat) : Bool :=
  0xDC00 ≤ n && n < 0xE000

/-- The character behind `\u`; a high surrogate needs its low half behind it. -/
def readUnicode? (s : List Char) : Option (Char × List Char) := do
  let (n, s) ← readHex4? s
  if isHighSurrogate n then
    match s with
    | '\\' :: 'u' :: s => do
      let (m, s) ← readHex4? s
      if isLowSurrogate m then
        some (Char.ofNat (0x10000 + 0x400 * (n - 0xD800) + (m - 0xDC00)), s)
      else none
    | _ => none
  else if isLowSurrogate n then none
  else some (Char.ofNat n, s)

/-- The character behind a backslash. -/
def readEscape? : List Char → Option (Char × List Char)
  | '"' :: s => some ('"', s)
  | '\\' :: s => some ('\\', s)
  | '/' :: s => some ('/', s)
  | 'b' :: s => some ('\x08', s)
  | 'f' :: s => some ('\x0c', s)
  | 'n' :: s => some ('\n', s)
  | 'r' :: s => some ('\r', s)
  | 't' :: s => some ('\t', s)
  | 'u' :: s => readUnicode? s
  | _ => none

/-- One character of a string and whether it is bare, or the end of the string. -/
def readChar? : List Char → Option (Option (Char × Bool) × List Char)
  | '"' :: s => some (none, s)
  | '\\' :: s => (readEscape? s).map fun (c, s) => (some (c, false), s)
  | c :: s => if c.toNat < 0x20 then none else some (some (c, true), s)
  | [] => none

/-- The rest of a string behind its opening quote, and whether it has no escape. Every step takes a
character, so the length of the text is enough fuel. -/
def readString? : (fuel : Nat) → List Char → Option ((List Char × Bool) × List Char)
  | 0, _ => none
  | fuel + 1, s => do
    match ← readChar? s with
    | (none, s) => some (([], true), s)
    | (some (c, bare), s) =>
      let ((cs, plain), s) ← readString? fuel s
      some ((c :: cs, bare && plain), s)

/-- The token at the front of a text that does not start with a blank. -/
def readToken? (s : List Char) : Option (Token × List Char) :=
  match s with
  | '[' :: s => some (.openBracket, s)
  | ']' :: s => some (.closeBracket, s)
  | '\x7b' :: s => some (.openBrace, s)
  | '\x7d' :: s => some (.closeBrace, s)
  | ',' :: s => some (.comma, s)
  | ':' :: s => some (.colon, s)
  | 'n' :: 'u' :: 'l' :: 'l' :: s => some (.null, s)
  | 't' :: 'r' :: 'u' :: 'e' :: s => some (.bool true, s)
  | 'f' :: 'a' :: 'l' :: 's' :: 'e' :: s => some (.bool false, s)
  | '"' :: s => (readString? (s.length + 1) s).map fun ((cs, plain), s) => (.string cs plain, s)
  | s => do
    let (p, s) ← readParts? s
    let n ← p.toNumber?
    some (.number n, s)

/-- All tokens. Every step takes a character, so the length of the text is enough fuel. -/
def readTokens? : (fuel : Nat) → List Char → Option (List Token)
  | _, [] => some []
  | 0, _ :: _ => none
  | fuel + 1, c :: s =>
    if isBlank c then readTokens? fuel s
    else do
      let (t, s) ← readToken? (c :: s)
      let ts ← readTokens? fuel s
      some (t :: ts)

/-- The tokens of a text. -/
def tokens? (s : String) : Option (List Token) :=
  readTokens? s.length s.toList

end RowCode.Json
