import ElementBundle.Data.Yaml.Content
import ElementBundle.Text.Blank

/-!
# The pen

A pen writes a document from its start to its end. It knows its column, whether white space is behind
it, and whether it has written anything but indentation and dashes in its line. Margins tell how far
lines are indented.
-/

namespace ElementBundle.Data.Yaml

open ElementBundle.Text

/-- What has been written, the last character first, and the state of the last line. -/
structure Pen where
  written : List Char := []
  column : Nat := 0
  /-- Whether white space is behind the pen. -/
  blank : Bool := true
  /-- Whether the line has only indentation and dashes so far. -/
  fresh : Bool := true
  /-- Whether the next indentation stays on the line. -/
  stays : Bool := false
  /-- Whether the document needs a mark at its end. -/
  openEnded : Bool := false

def Pen.text (p : Pen) : List Char :=
  p.written.reverse

def Pen.raw (p : Pen) (s : List Char) : Pen :=
  { p with written := s.reverse ++ p.written }

def Pen.put (p : Pen) (s : List Char) : Pen :=
  { p.raw s with column := p.column + s.length }

def Pen.endLine (p : Pen) (c : Char := '\n') : Pen :=
  { p.raw [c] with blank := true, fresh := true, column := 0 }

def Pen.inWord (p : Pen) : Pen :=
  { p with blank := false, fresh := false }

/-- Goes to an indentation, on a new line if the present one is past it. -/
def Pen.indentTo (p : Pen) (indent : Option Nat) : Pen :=
  let n := indent.getD 0
  let p :=
    if !p.fresh || n < p.column || (p.column == n && !p.blank) then
      if p.stays then { p with stays := false } else p.endLine
    else p
  if p.column < n then { p.raw (List.replicate (n - p.column) ' ') with blank := true, column := n }
  else p

/-- Writes a mark. `apart` puts a space in front if there is none, `blank` tells that nothing need be
put behind it, and `fresh` that it counts as indentation. -/
def Pen.mark (p : Pen) (s : List Char) (apart : Bool) (blank : Bool := false)
    (fresh : Bool := false) : Pen :=
  let s := if p.blank || !apart then s else ' ' :: s
  { p.put s with blank, fresh := p.fresh && fresh, openEnded := false }

/-- Writes a comment: behind something up to the end of the line, or in lines of its own. It keeps its
column if there is room. -/
def Pen.comment (p : Pen) (r : Remark) (ahead : Bool) : Pen :=
  let text := if !ahead && r.text.getLast? == some '\n' then r.text.dropLast else r.text
  let column := if r.text.head? == some '\n' then p.column else r.column
  let gap := column - p.column
  let gap :=
    if p.column != 0 && gap < 1 && text.any (fun c => !isBlank c) && text.head? != some '\n' then 1
    else gap
  let p := p.raw (List.replicate gap ' ' ++ text)
  if ahead then p else p.endLine

def Pen.comments (p : Pen) (rs : List Remark) : Pen :=
  rs.foldl (fun p r => (if p.column = 0 then p else p.endLine).comment r true) p

/-- The brackets that are open. Around a single entry in a list they are left out. -/
inductive Bracket where
  | square
  | curly
  | none
  deriving DecidableEq, Repr

/-- A collection around the pen: the indentation outside of it, and whether it is a sequence. -/
structure Frame where
  indent : Option Nat
  sequence : Bool
  deriving DecidableEq, Repr

/-- Where lines start: the indentation, the collections around, and the open brackets, the innermost
ones first. -/
structure Margin where
  indent : Option Nat := none
  frames : List Frame := []
  brackets : List Bracket := []
  deriving DecidableEq, Repr

def Margin.flow (m : Margin) : Bool :=
  !m.brackets.isEmpty

def sequenceIndent : Nat := 4

def mappingIndent : Nat := 2

def lineWidth : Nat := 80

/-- The margin inside a collection or a scalar. At the start of a document only a block is
indented; a sequence that hugs its key is not indented. -/
def Margin.deeper (m : Margin) (flow sequence hugs : Bool) : Margin :=
  let step := match m.frames with
    | f :: _ => if f.sequence then sequenceIndent else mappingIndent
    | [] => mappingIndent
  let indent := match m.indent with
    | none => if flow then none else some 0
    | some n => some (if hugs then n else n + step)
  { m with indent, frames := ⟨m.indent, sequence⟩ :: m.frames }

def Margin.scalar (m : Margin) : Margin :=
  m.deeper true false false

/-- The spaces in front of an opening bracket: up to the text behind dashes, or, in a line of its
own, up to the indentation. -/
def Margin.align (m : Margin) (column : Nat) (ownLine : Bool) : Nat :=
  match m.frames with
  | [] => 0
  | f :: more =>
    let base := f.indent.getD 0
    if ownLine then base + sequenceIndent
    else if f.sequence && !more.isEmpty then base + sequenceIndent - column - 1
    else 0

end ElementBundle.Data.Yaml
