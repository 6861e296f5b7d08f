import ElementBundle.Text.Printable

/-!
# Quoted texts

Two ways to write a text between quotes. A string literal uses double quotes and basic Latin
characters only, so that it survives any encoding. A shown text, for messages, uses single quotes
unless the text itself holds one and no double quote, and escapes what cannot be printed.
-/

namespace ElementBundle.Text

def hexDigit (n : Nat) : Char :=
  Nat.digitChar (n % 16)

/-- The lowest `width` hexadecimal digits of a number, highest first. -/
def hex : Nat → Nat → List Char
  | 0, _ => []
  | width + 1, n => hex width (n / 16) ++ [hexDigit n]

def unitEscape (n : Nat) : List Char :=
  '\\' :: 'u' :: hex 4 n

/-- A character inside a string literal; one beyond the first plane takes two code units. -/
def literalChar (c : Char) : List Char :=
  if c = '"' then ['\\', '"']
  else if c = '\\' then ['\\', '\\']
  else if c = '\n' then ['\\', 'n']
  else if c = '\r' then ['\\', 'r']
  else if c = '\t' then ['\\', 't']
  else if c = '\x08' then ['\\', 'b']
  else if c = '\x0c' then ['\\', 'f']
  else if 0x20 ≤ c.toNat && c.toNat < 0x7F then [c]
  else if c.toNat < 0x10000 then unitEscape c.toNat
  else
    let n := c.toNat - 0x10000
    unitEscape (0xD800 + n / 0x400) ++ unitEscape (0xDC00 + n % 0x400)

def literal (s : List Char) : List Char :=
  '"' :: s.flatMap literalChar ++ ['"']

def literalList (items : List (List Char)) : List Char :=
  '[' :: [',', ' '].intercalate (items.map literal) ++ [']']

/-- A character inside a shown text that stands between the given quotes. -/
def shownChar (quote c : Char) : List Char :=
  if c = quote || c = '\\' then ['\\', c]
  else if c = '\n' then ['\\', 'n']
  else if c = '\r' then ['\\', 'r']
  else if c = '\t' then ['\\', 't']
  else if isPrintable c then [c]
  else if c.toNat < 0x100 then '\\' :: 'x' :: hex 2 c.toNat
  else if c.toNat < 0x10000 then unitEscape c.toNat
  else '\\' :: 'U' :: hex 8 c.toNat

def shownQuote (s : List Char) : Char :=
  if s.contains '\'' && !s.contains '"' then '"' else '\''

def shown (s : List Char) : List Char :=
  let quote := shownQuote s
  quote :: s.flatMap (shownChar quote) ++ [quote]

end ElementBundle.Text
