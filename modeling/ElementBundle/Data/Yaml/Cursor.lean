/-!
# Places in a YAML text

A cursor is what is left of a text, and the line and column that this is at. Only line feeds and
carriage returns start a line of their own for the count; the other line breaks end a line of
content all the same.
-/

namespace ElementBundle.Data.Yaml

structure Cursor where
  rest : List Char
  index : Nat := 0
  line : Nat := 0
  column : Nat := 0
  deriving DecidableEq, Repr

def Cursor.peek (c : Cursor) (n : Nat := 0) : Char :=
  (c.rest[n]?).getD '\x00'

def Cursor.atEnd (c : Cursor) : Bool :=
  c.rest.isEmpty

def isBreak (c : Char) : Bool :=
  c == '\n' || c == '\r' || c == '\u0085' || c == '\u2028' || c == '\u2029'

def isEnd (c : Char) : Bool :=
  c == '\n' || c == '\r' || c == '\u0085' || c == '\x00'

def isEndOrBlank (c : Char) : Bool :=
  isEnd c || c == ' ' || c == '\t'

/-- Whether a character may stand behind a tag or a directive: a space or an end of a line. -/
def isEndOrSpace (c : Char) : Bool :=
  c == ' ' || c == '\x00' || isBreak c

def isTabOrSpace (c : Char) : Bool :=
  c == ' ' || c == '\t'

def isFlowMark (c : Char) : Bool :=
  c == ',' || c == '[' || c == ']' || c == '{' || c == '}'

def Cursor.forward (c : Cursor) : Nat → Cursor
  | 0 => c
  | n + 1 =>
    match c.rest with
    | [] => c
    | d :: rest =>
      let c := { c with rest, index := c.index + 1 }
      let c :=
        if d == '\n' || (d == '\r' && rest.head? != some '\n') then
          { c with line := c.line + 1, column := 0 }
        else if d == '\ufeff' then c
        else { c with column := c.column + 1 }
      c.forward n

def Cursor.takeWhile (c : Cursor) (p : Char → Bool) : List Char × Cursor :=
  let run := c.rest.takeWhile p
  (run, c.forward run.length)

def Cursor.dropWhile (c : Cursor) (p : Char → Bool) : Cursor :=
  (c.takeWhile p).2

/-- Reads a line break; all but two become a line feed. -/
def Cursor.lineBreak (c : Cursor) : List Char × Cursor :=
  match c.rest with
  | '\r' :: '\n' :: _ => (['\n'], c.forward 2)
  | d :: _ =>
    if d == '\u2028' || d == '\u2029' then ([d], c.forward 1)
    else if isBreak d then (['\n'], c.forward 1)
    else ([], c)
  | [] => ([], c)

/-- Reads line breaks as long as there are any. The fuel bounds their number. -/
def Cursor.lineBreaks : Nat → Cursor → List Char × Cursor
  | 0, c => ([], c)
  | fuel + 1, c =>
    match c.lineBreak with
    | ([], c) => ([], c)
    | (b, c) =>
      let (more, c) := Cursor.lineBreaks fuel c
      (b ++ more, c)

def Cursor.atMark (c : Cursor) (mark : List Char) : Bool :=
  mark.isPrefixOf c.rest && isEndOrBlank (c.peek 3)

def startMark : List Char := ['-', '-', '-']

def endMark : List Char := ['.', '.', '.']

def Cursor.atDocument (c : Cursor) : Bool :=
  c.atMark startMark || c.atMark endMark

def hexValue? (c : Char) : Option Nat :=
  if c.isDigit then some (c.toNat - 48)
  else if 'a' ≤ c && c ≤ 'f' then some (c.toNat - 87)
  else if 'A' ≤ c && c ≤ 'F' then some (c.toNat - 55)
  else none

def isAllowed (c : Char) : Bool :=
  let n := c.toNat
  n == 0x9 || n == 0xA || n == 0xD || (0x20 ≤ n && n ≤ 0x7E) || n == 0x85 ||
    (0xA0 ≤ n && n ≤ 0xD7FF) || (0xE000 ≤ n && n ≤ 0xFFFD) || 0x10000 ≤ n

end ElementBundle.Data.Yaml
