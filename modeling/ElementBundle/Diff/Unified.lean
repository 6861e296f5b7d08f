import ElementBundle.Diff.Match

/-!
# Unified differences

The difference of two texts as lines to keep, to remove and to add, in hunks with three lines of
context around each change.
-/

namespace ElementBundle.Diff

/-- What happens to a range of the old lines and a range of the new ones. -/
inductive Change where
  | keep
  | replace
  | delete
  | insert
  deriving DecidableEq, Repr

/-- A change of the old lines `oldStart` to `oldStop` into the new lines `newStart` to `newStop`. -/
structure Edit where
  change : Change
  oldStart : Nat
  oldStop : Nat
  newStart : Nat
  newStop : Nat
  deriving DecidableEq, Repr

def gap (i j : Nat) (b : Block) : List Edit :=
  if i < b.old && j < b.new then [⟨.replace, i, b.old, j, b.new⟩]
  else if i < b.old then [⟨.delete, i, b.old, j, b.new⟩]
  else if j < b.new then [⟨.insert, i, b.old, j, b.new⟩]
  else []

/-- The edits from given offsets on; the last block is an empty one at the ends. -/
def editsFrom (i j : Nat) : List Block → List Edit
  | [] => []
  | b :: bs =>
    let kept := if b.size = 0 then [] else [⟨.keep, b.old, b.old + b.size, b.new, b.new + b.size⟩]
    gap i j b ++ kept ++ editsFrom (b.old + b.size) (b.new + b.size) bs

def edits (old new : List Nat) : List Edit :=
  editsFrom 0 0 (blocks old new ++ [⟨old.length, new.length, 0⟩])

def context : Nat := 3

def Edit.keepLast (e : Edit) : Edit :=
  { e with oldStart := max e.oldStart (e.oldStop - context)
           newStart := max e.newStart (e.newStop - context) }

def Edit.keepFirst (e : Edit) : Edit :=
  { e with oldStop := min e.oldStop (e.oldStart + context)
           newStop := min e.newStop (e.newStart + context) }

def shortenFront : List Edit → List Edit
  | e :: es => (if e.change = .keep then e.keepLast else e) :: es
  | [] => []

def shortenBack (es : List Edit) : List Edit :=
  match es.getLast? with
  | some e => if e.change = .keep then es.dropLast ++ [e.keepFirst] else es
  | none => []

def divide (hunk : List Edit) : List Edit → List (List Edit)
  | [] => [hunk]
  | e :: es =>
    if e.change = .keep && 2 * context < e.oldStop - e.oldStart then
      (hunk ++ [e.keepFirst]) :: divide [e.keepLast] es
    else divide (hunk ++ [e]) es

def changes (hunk : List Edit) : Bool :=
  hunk.any (·.change ≠ .keep)

def hunks (old new : List Nat) : List (List Edit) :=
  (divide [] (shortenBack (shortenFront (edits old new)))).filter changes

/-- A range of lines: its first line and, unless it is one line, its length. An empty range names the
line before it. -/
def rangeText (start stop : Nat) : String :=
  let length := stop - start
  if length = 1 then toString (start + 1)
  else toString (if length = 0 then start else start + 1) ++ "," ++ toString length

def marked (mark : String) (lines : List String) (start stop : Nat) : List String :=
  ((lines.take stop).drop start).map (mark ++ ·)

def Edit.lines (e : Edit) (old new : List String) : List String :=
  match e.change with
  | .keep => marked " " old e.oldStart e.oldStop
  | _ => marked "-" old e.oldStart e.oldStop ++ marked "+" new e.newStart e.newStop

def hunkLines (old new : List String) (hunk : List Edit) : List String :=
  match hunk.head?, hunk.getLast? with
  | some first, some last =>
    ("@@ -" ++ rangeText first.oldStart last.oldStop ++ " +" ++ rangeText first.newStart last.newStop ++
      " @@") :: hunk.flatMap (·.lines old new)
  | _, _ => []

def lineNumber (all : List String) (line : String) : Nat :=
  all.idxOf line

/-- The unified difference of two texts, given by their lines; no lines if there is none. -/
def unified (oldTitle newTitle : String) (old new : List String) : List String :=
  let all := (old ++ new).eraseDups
  match hunks (old.map (lineNumber all)) (new.map (lineNumber all)) with
  | [] => []
  | hs => ("--- " ++ oldTitle) :: ("+++ " ++ newTitle) :: hs.flatMap (hunkLines old new)

end ElementBundle.Diff
