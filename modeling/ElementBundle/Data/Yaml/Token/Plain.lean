import ElementBundle.Data.Yaml.Token

/-!
# Plain scalars

A plain scalar has no quotes. It goes on over lines that are indented enough; a line break inside is
a space, and blank lines are line feeds.
-/

namespace ElementBundle.Data.Yaml

structure PlainRules where
  version : Version
  /-- Whether brackets are open. -/
  flow : Bool
  /-- The least column of a further line. -/
  indent : Int

/-- What stands between two pieces of a plain scalar. -/
structure Spaces where
  text : List Char
  /-- Whether a line has ended. -/
  broke : Bool
  next : Cursor

/-- Line breaks and spaces between the lines of a plain scalar; nothing if a document ends. -/
def plainBreaks : Nat → Cursor → List Char → Option (List Char) × Cursor
  | 0, c, breaks => (some breaks, c)
  | fuel + 1, c, breaks =>
    if c.peek == ' ' then plainBreaks fuel (c.forward 1) breaks
    else
      match c.lineBreak with
      | ([], c) => (some breaks, c)
      | (b, c) => if c.atDocument then (none, c) else plainBreaks fuel c (breaks ++ b)

/-- One line break is a space, and more are all but the first of them. -/
def foldBreaks (first breaks : List Char) : List Char :=
  (if first ≠ ['\n'] then first else if breaks.isEmpty then [' '] else []) ++ breaks

def Cursor.plainSpaces (c : Cursor) : Spaces :=
  let (blanks, c) := c.takeWhile (· == ' ')
  match c.lineBreak with
  | ([], c) => ⟨blanks, false, c⟩
  | (first, c) =>
    if c.atDocument then ⟨[], true, c⟩
    else
      match plainBreaks (c.rest.length + 1) c [] with
      | (none, c) => ⟨[], true, c⟩
      | (some breaks, c) => ⟨foldBreaks first breaks, true, c⟩

/-- The length of a piece of a plain scalar. A colon in front of a blank ends it, and in brackets a
comma or a bracket. -/
def plainLength (r : PlainRules) : List Char → Nat
  | [] => 0
  | c :: rest =>
    let next := rest.head?.getD '\x00'
    let goes :=
      if c == ':' then !isEndOrBlank next
      else if c == '?' then r.version ≠ .old || !r.flow
      else !isEndOrBlank c && !(r.flow && isFlowMark c)
    if goes then plainLength r rest + 1 else 0

/-- A plain scalar: its text, the place behind its last piece, and the gap that was read behind it. -/
structure PlainRun where
  text : List Char
  stop : Cursor
  spaces : Spaces

def plainPieces (r : PlainRules) : Nat → PlainRun → PlainRun
  | 0, run => run
  | fuel + 1, run =>
    let c := run.spaces.next
    let length := if c.peek == '#' then 0 else plainLength r c.rest
    if length == 0 then run
    else
      let text := run.text ++ run.spaces.text ++ c.rest.take length
      let stop := c.forward length
      let spaces := stop.plainSpaces
      let run := ⟨text, stop, spaces⟩
      if spaces.text.isEmpty || spaces.next.peek == '#' ||
          (!r.flow && (spaces.next.column : Int) < r.indent) then run
      else plainPieces r fuel run

def Cursor.plain (c : Cursor) (r : PlainRules) : PlainRun :=
  plainPieces r (c.rest.length + 1) ⟨[], c, ⟨[], false, c⟩⟩

def PlainRun.behind? (run : PlainRun) (start : Cursor) : Option Remark :=
  if run.spaces.text.head? == some '\n' then
    some ⟨start.line, start.column, run.spaces.text ++ ['\n']⟩
  else none

/-- The characters that no plain scalar starts with, unless the next one makes it one. -/
def isIndicator (c : Char) : Bool :=
  "-?:,[]\x7b\x7d#&*!|>'\"%@`".toList.contains c

def Cursor.atPlain (c : Cursor) (version : Version) (flow : Bool) : Bool :=
  let d := c.peek
  let next := c.peek 1
  if !isEndOrBlank d && !isBreak d && !isIndicator d then true
  else if d == '-' then !isEndOrBlank next
  else if d == ':' && flow then version ≠ .old && !isTabOrSpace next
  else (d == '?' || d == ':') && !flow && !isEndOrBlank next

end ElementBundle.Data.Yaml
