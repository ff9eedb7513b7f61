import Relational.Text.Invisible

/-! Quoted text: a text between double quotes, with everything that could mislead a reader escaped. -/

namespace Relational

/-- The letter behind the backslash, for a character that has a short escape of its own. -/
def shortEscape? (c : Char) : Option Char :=
  if c = '"' then some '"'
  else if c = '\\' then some '\\'
  else if c = '\n' then some 'n'
  else if c = '\r' then some 'r'
  else if c = '\t' then some 't'
  else if c = '\x00' then some '0'
  else none

/-- The spelling of a character by its code point, in lower-case hexadecimal without padding. -/
def codePointEscape (c : Char) : List Char :=
  ['\\', 'u', '\x7b'] ++ Nat.toDigits 16 c.toNat ++ ['\x7d']

/-- What one character becomes between the quotes. -/
def escapeChar (c : Char) : List Char :=
  match shortEscape? c with
  | some letter => ['\\', letter]
  | none => if isInvisible c then codePointEscape c else [c]

/-- The characters of a text in double quotes, every one of them escaped on its own. -/
def quoteChars (s : String) : List Char :=
  '"' :: s.toList.flatMap escapeChar ++ ['"']

/-- A text in double quotes. -/
def quoteText (s : String) : String :=
  String.ofList (quoteChars s)

end Relational
