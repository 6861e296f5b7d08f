import ElementBundle.Decimal.Shortest
import ElementBundle.Text.Wrap

/-!
# Tables

A table has a title, a line of headers and rows. A column is as wide as its widest cell. If the
columns do not fit together, the widest ones give way first, down to the next widest, until all fit;
their cells are then wrapped at blanks, and words that are still too long end in an ellipsis.
-/

namespace ElementBundle.Console

open ElementBundle.Text

inductive Align where
  | left
  | right
  | center
  deriving DecidableEq, Repr

/-- A column: its header and the place of its cells. -/
structure Column where
  header : String
  align : Align := .left

def totalWidth (widths : List Nat) : Nat :=
  widths.foldr (· + ·) 0

/-- Takes an amount away from the marked widths, in equal shares but from each no more than a bound.
A share is rounded, and what remains is shared among the columns that follow. -/
def shrink (bound amount marks : Nat) : List (Nat × Bool) → List Nat
  | [] => []
  | (width, false) :: more => width :: shrink bound amount marks more
  | (width, true) :: more =>
    let share := min bound (Decimal.roundDiv amount marks)
    (width - share) :: shrink bound (amount - share) (marks - 1) more

/-- Narrows the widest columns toward the next widest ones until all fit into a room. The fuel bounds
the number of rounds. -/
def narrow (room : Nat) : Nat → List Nat → List Nat
  | 0, widths => widths
  | fuel + 1, widths =>
    let excess := totalWidth widths - room
    if excess = 0 then widths
    else
      let widest := widths.foldl max 0
      let next := (widths.filter (· ≠ widest)).foldl max 0
      let marked := widths.map fun w => (w, w == widest)
      if widest = next then widths
      else
        narrow room fuel
          (shrink (min excess (widest - next)) excess (widths.count widest) marked)

/-- The widths of columns in a room, from the widths of their widest cells. -/
def columnWidths (room : Nat) (natural : List Nat) : List Nat :=
  narrow room (totalWidth natural + 1) natural

def widestLine (cell : List Char) : Nat :=
  ((splitLines (cell.filter (!isSuppressed ·))).map cells).foldl max 0

def cellLines (align : Align) (width : Nat) (cell : List Char) : List (List Char) :=
  (splitNewlines (cell.filter (!isSuppressed ·))).flatMap fun line =>
    (wrapLine width false (expandTabs 8 0 line)).map fun line =>
      match align with
      | .left => padEnd width (ellipsize width line)
      | .right => padStart width (ellipsize width (trimEnd line))
      | .center => padBoth width (ellipsize width (trimEnd line))

/-- The lines of a row: its cells side by side, with blanks below the shorter ones. -/
def rowLines (edge between : Char) (columns : List (Column × Nat)) (row : List (List Char)) :
    List (List Char) :=
  let cells := (columns.zip row).map fun ((c, width), cell) => cellLines c.align (width - 2) cell
  let height := (cells.map List.length).foldl max 1
  (List.range height).map fun i =>
    let parts := (columns.zip cells).map fun ((_, width), lines) =>
      ' ' :: (lines[i]?).getD (List.replicate (width - 2) ' ') ++ [' ']
    edge :: [between].intercalate parts ++ [edge]

def rule (left bar between right : Char) (widths : List Nat) : List Char :=
  left :: [between].intercalate (widths.map fun w => List.replicate w bar) ++ [right]

def table (width : Nat) (title : String) (columns : List Column) (rows : List (List String)) :
    List (List Char) :=
  let rows := rows.map fun row => row.map String.toList
  let headers := columns.map fun c => c.header.toList
  let room := width - (columns.length + 1)
  let natural := (List.range columns.length).map fun i =>
    min room ((((headers :: rows).map fun row =>
      widestLine ((row[i]?).getD [])).foldl max 0) + 2)
  let widths := columnWidths room natural
  let columns := columns.zip widths
  padBoth (totalWidth widths + widths.length + 1) title.toList ::
    rule '┏' '━' '┳' '┓' widths ::
    rowLines '┃' '┃' columns headers ++
    rule '┡' '━' '╇' '┩' widths ::
    rows.flatMap (rowLines '│' '│' columns) ++
    [rule '└' '─' '┴' '┘' widths]

end ElementBundle.Console
