import ElementBundle.Data.Yaml.Token.Gap

/-!
# Block scalars

A block scalar is a run of indented lines behind a head. The head tells whether lines are kept or
folded, what happens to line breaks at the end, and by how much the lines are indented.
-/

namespace ElementBundle.Data.Yaml

structure BlockHead where
  /-- Whether line breaks at the end all stay, or all go; by itself one stays. -/
  keep : Option Bool := none
  increment : Option Nat := none
  comment : Option (List Char) := none

def indentDigit? (c : Char) : Option Nat :=
  if '1' ≤ c && c ≤ '9' then some (c.toNat - 48) else none

def keepSign? (c : Char) : Option Bool :=
  if c == '+' then some true else if c == '-' then some false else none

def Cursor.blockSigns (c : Cursor) : BlockHead × Cursor :=
  match keepSign? c.peek, indentDigit? c.peek with
  | some keep, _ =>
    let c := c.forward 1
    match indentDigit? c.peek with
    | some n => ({ keep := some keep, increment := some n }, c.forward 1)
    | none => ({ keep := some keep }, c)
  | none, some n =>
    let c := c.forward 1
    match keepSign? c.peek with
    | some keep => ({ keep := some keep, increment := some n }, c.forward 1)
    | none => ({ increment := some n }, c)
  | none, none => ({}, c)

def Cursor.blockHead (c : Cursor) : Except Flaw (BlockHead × Cursor) :=
  let (head, c) := c.blockSigns
  if !isEndOrSpace c.peek then .error .malformed
  else
    let (blanks, c) := c.takeWhile (· == ' ')
    let (comment, c) :=
      if c.peek == '#' then
        let (text, c) := c.takeWhile fun d => !isEnd d
        (some (blanks ++ text), c)
      else (none, c)
    if isEnd c.peek then .ok ({ head with comment }, c.lineBreak.2) else .error .malformed

/-- Line breaks in front of a line, and the place behind the last one of them. -/
structure BlockBreaks where
  text : List Char
  stop : Cursor
  next : Cursor

def blockBreaks (indent : Nat) : Nat → BlockBreaks → BlockBreaks
  | 0, b => b
  | fuel + 1, b =>
    let c := b.next
    let c := c.forward (min (indent - c.column) (c.rest.takeWhile (· == ' ')).length)
    match c.lineBreak with
    | ([], c) => { b with next := c }
    | (text, c) => blockBreaks indent fuel ⟨b.text ++ text, c, c⟩

def Cursor.blockBreaks (c : Cursor) (indent : Nat) : BlockBreaks :=
  Yaml.blockBreaks indent (c.rest.length + 1) ⟨[], c, c⟩

/-- Line breaks in front of a block scalar, and the deepest column that its spaces reach. -/
def blockIndentation : Nat → BlockBreaks → Nat → BlockBreaks × Nat
  | 0, b, deepest => (b, deepest)
  | fuel + 1, b, deepest =>
    let c := b.next
    if c.peek == ' ' then
      let c := c.forward 1
      blockIndentation fuel { b with next := c } (max deepest c.column)
    else
      match c.lineBreak with
      | ([], _) => (b, deepest)
      | (text, c) => blockIndentation fuel ⟨b.text ++ text, c, c⟩ deepest

/-- What has been read of a block scalar: its text, the offsets at which lines were joined, the last
line break, and the breaks behind it. -/
structure BlockRun where
  text : List Char := []
  folds : List Nat := []
  last : List Char := []
  breaks : BlockBreaks

def BlockRun.goesOn (run : BlockRun) (indent : Nat) : Bool :=
  let c := run.breaks.next
  c.column == indent && !c.atEnd && !(indent == 0 && c.atDocument)

def blockLines (folds : Bool) (indent : Nat) : Nat → BlockRun → BlockRun
  | 0, run => run
  | fuel + 1, run =>
    let c := run.breaks.next
    let (line, after) := c.takeWhile fun d => !isEnd d
    let (last, after) := after.lineBreak
    let text := run.text ++ run.breaks.text ++ line
    let next : BlockRun := { text, folds := run.folds, last, breaks := after.blockBreaks indent }
    if next.goesOn indent then
      let joint :=
        if folds && last == ['\n'] && !isTabOrSpace c.peek && !isTabOrSpace next.breaks.next.peek then
          if next.breaks.text.isEmpty then [' '] else []
        else last
      let offsets := if folds && last == ['\n'] then run.folds ++ [text.length] else run.folds
      blockLines folds indent fuel { next with text := text ++ joint, folds := offsets }
    else next

structure BlockScalar where
  text : List Char
  folds : List Nat
  notes : Notes
  /-- The place behind the last line break. -/
  stop : Cursor
  next : Cursor

/-- Reads a block scalar behind its mark. Line breaks at the end that do not belong to the text are a
comment of the scalar, together with what follows them. -/
def Cursor.block (c : Cursor) (folds keeps : Bool) (indent : Int) : Except Flaw BlockScalar := do
  let (head, c) ← c.blockHead
  let least := (indent + 1).toNat
  let (breaks, indent) :=
    match head.increment with
    | none =>
      let (breaks, deepest) := blockIndentation (c.rest.length + 1) ⟨[], c, c⟩ 0
      (breaks, max least deepest)
    | some n =>
      let indent := max least 1 + n - 1
      (c.blockBreaks indent, indent)
  let run : BlockRun := { breaks }
  let run :=
    if breaks.next.column == indent && !breaks.next.atEnd then
      blockLines folds indent (c.rest.length + 1) run
    else run
  let text := if head.keep == some false then run.text else run.text ++ run.last
  let text := if head.keep == some true then text ++ run.breaks.text else text
  let trailing := if head.keep == some true then [] else run.breaks.text
  let stop := run.breaks.stop
  let header := if keeps then head.comment else none
  if trailing.isEmpty then
    return { text, folds := run.folds, notes := { header }, stop, next := run.breaks.next }
  else
    let (more, next) := gapTexts keeps (c.rest.length + 1) run.breaks.next
    let behind := if keeps then some ⟨stop.line, stop.column, trailing ++ more⟩ else none
    return { text, folds := run.folds, notes := { header, behind }, stop, next }

end ElementBundle.Data.Yaml
