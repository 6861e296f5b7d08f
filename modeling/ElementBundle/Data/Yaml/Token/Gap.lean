import ElementBundle.Data.Yaml.Token
import ElementBundle.Text.Blank

/-!
# Gaps between tokens

Between tokens there are blanks, comments and line breaks. When comments are to be kept, a gap is
read in pieces: a comment with the line breaks behind it, or blank lines.
-/

namespace ElementBundle.Data.Yaml

open ElementBundle.Text

structure Gap where
  remark : Option Remark := none
  /-- Whether a line has ended. -/
  broke : Bool := false
  next : Cursor
  deriving DecidableEq, Repr

/-- Whether a character is a blank between tokens. Only inside brackets tabs are blanks. -/
def isGapBlank (flow : Bool) (c : Char) : Bool :=
  c == ' ' || (flow && c == '\t')

def skipGap (flow : Bool) : Nat → Bool → Cursor → Gap
  | 0, broke, c => { broke, next := c }
  | fuel + 1, broke, c =>
    let c := c.dropWhile (isGapBlank flow)
    let c := if c.peek == '#' then c.dropWhile fun d => !isEnd d else c
    match c.lineBreak with
    | ([], c) => { broke, next := c }
    | (_, c) => skipGap flow fuel true c

def readComment (c : Cursor) : List Char × Cursor :=
  let (text, c) := c.takeWhile fun d => !isEnd d
  let (last, c) := if c.atEnd then (['\n'], c) else ([c.peek], c.forward 1)
  let (breaks, c) := c.lineBreaks (c.rest.length + 1)
  (text ++ last ++ breaks, c)

def readBlankLines : Nat → Cursor → List Char × Cursor
  | 0, c => ([], c)
  | fuel + 1, c =>
    match c.lineBreak with
    | ([], c) =>
      if isTabOrSpace c.peek then
        let (more, rest) := readBlankLines fuel (c.forward 1)
        (c.peek :: more, rest)
      else ([], c)
    | (b, c) =>
      let (more, c) := readBlankLines fuel c
      (b ++ more, c)

/-- Reads a gap up to the next token, or up to the end of a comment or of blank lines. In front of a
comment the blanks of its own line are no part of the blank lines. -/
def readGap (flow : Bool) : Nat → Bool → Cursor → Gap
  | 0, broke, c => { broke, next := c }
  | fuel + 1, broke, c =>
    let c := c.dropWhile (isGapBlank flow)
    if c.peek == '#' then
      let (text, next) := readComment c
      { remark := some ⟨c.line, c.column, text⟩, broke := true, next }
    else
      match c.lineBreak with
      | ([], c) => { broke, next := c }
      | (_, c) =>
        if c.peek == '\n' then
          let (text, next) := readBlankLines (c.rest.length + 1) c
          let text := if next.peek == '#' then dropEndWhile (· != '\n') text else text
          { remark := some ⟨c.line, c.column, text⟩, broke := true, next }
        else readGap flow fuel true c

/-- A gap at a place. A byte order mark may stand in front of the text. -/
def Cursor.gap (c : Cursor) (keeps flow : Bool) : Gap :=
  let c := if c.index == 0 && c.peek == '\ufeff' then c.forward 1 else c
  if keeps then readGap flow (c.rest.length + 1) false c
  else skipGap flow (c.rest.length + 1) false c

/-- The texts of all pieces of a gap outside of brackets, each behind blanks up to its column. -/
def gapTexts (keeps : Bool) : Nat → Cursor → List Char × Cursor
  | 0, c => ([], c)
  | fuel + 1, c =>
    let gap := c.gap keeps false
    match gap.remark with
    | none => ([], gap.next)
    | some r =>
      let (more, c) := gapTexts keeps fuel gap.next
      (List.replicate r.column ' ' ++ r.text ++ more, c)

end ElementBundle.Data.Yaml
