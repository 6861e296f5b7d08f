import ElementBundle.Data.Yaml.Token.Plain

/-!
# Quoted scalars

In single quotes a quote is written twice. In double quotes a backslash starts an escape. Line breaks
are folded as in plain scalars.
-/

namespace ElementBundle.Data.Yaml

/-- Line breaks inside quotes, with the blanks around them. A document must not end there. -/
def quotedBreaks : Nat → Cursor → List Char → Except Flaw (List Char × Cursor)
  | 0, _, _ => .error .malformed
  | fuel + 1, c, breaks =>
    if c.atDocument then .error .malformed
    else
      match (c.dropWhile isTabOrSpace).lineBreak with
      | ([], c) => .ok (breaks, c)
      | (b, c) => quotedBreaks fuel c (breaks ++ b)

def Cursor.quotedSpaces (c : Cursor) : Except Flaw (List Char × Cursor) :=
  let (blanks, c) := c.takeWhile isTabOrSpace
  match c.lineBreak with
  | ([], c) => if c.atEnd then .error .malformed else .ok (blanks, c)
  | (first, c) => do
    let (breaks, c) ← quotedBreaks (c.rest.length + 1) c []
    return (foldBreaks first breaks, c)

def escapes : List (Char × Char) :=
  [('0', '\x00'), ('a', '\x07'), ('b', '\x08'), ('t', '\t'), ('\t', '\t'), ('n', '\n'),
    ('v', '\x0b'), ('f', '\x0c'), ('r', '\r'), ('e', '\x1b'), (' ', ' '), ('"', '"'), ('/', '/'),
    ('\\', '\\'), ('N', '\u0085'), ('_', '\u00a0'), ('L', '\u2028'), ('P', '\u2029')]

def numbered : List (Char × Nat) :=
  [('x', 2), ('u', 4), ('U', 8)]

def hexNumber? (digits : List Char) : Option Nat :=
  (digits.mapM hexValue?).map fun ds => ds.foldl (fun n d => n * 16 + d) 0

def Cursor.escape (c : Cursor) : Except Flaw (List Char × Cursor) :=
  match escapes.lookup c.peek, numbered.lookup c.peek with
  | some d, _ => .ok ([d], c.forward 1)
  | none, some length =>
    let digits := (c.rest.drop 1).take length
    match hexNumber? digits with
    | some n =>
      if digits.length < length then .error .malformed
      else if 0x10FFFF < n then .error (.noCharacter n)
      else if n.isValidChar then .ok ([Char.ofNat n], c.forward (length + 1))
      else .error .malformed
    | none => .error .malformed
  | none, none =>
    match c.lineBreak with
    | ([], _) => .error .malformed
    | (_, c) => quotedBreaks (c.rest.length + 1) c []

def quotedText (quote : Char) : Nat → Cursor → List Char → Except Flaw (List Char × Cursor)
  | 0, _, _ => .error .malformed
  | fuel + 1, c, text =>
    let d := c.peek
    if d == quote then
      if quote == '\'' && c.peek 1 == '\'' then quotedText quote fuel (c.forward 2) (text ++ ['\''])
      else .ok (text, c.forward 1)
    else if c.atEnd then .error .malformed
    else if isTabOrSpace d || isBreak d then do
      let (spaces, c) ← c.quotedSpaces
      quotedText quote fuel c (text ++ spaces)
    else if d == '\\' && quote == '"' then do
      let (escaped, c) ← (c.forward 1).escape
      quotedText quote fuel c (text ++ escaped)
    else quotedText quote fuel (c.forward 1) (text ++ [d])

def Cursor.quoted (c : Cursor) : Except Flaw (List Char × Cursor) :=
  quotedText c.peek (c.rest.length + 1) (c.forward 1) []

end ElementBundle.Data.Yaml
