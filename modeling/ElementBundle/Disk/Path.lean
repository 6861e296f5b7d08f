import ElementBundle.Text.Blank

/-!
# Paths

An absolute path is the list of its parts. A text is taken as a path relative to another one: empty
parts and single dots are dropped, and a leading slash starts from the top. Two dots stay in a path
until it is made normal.
-/

namespace ElementBundle.Disk

open ElementBundle.Text

structure Path where
  parts : List String
  deriving DecidableEq, Repr

def partsOf (s : String) : List String :=
  ((splitWhere (· == '/') s.toList).map String.ofList).filter fun p => p != "" && p != "."

def Path.join (p : Path) (s : String) : Path :=
  if s.toList.head? = some '/' then ⟨partsOf s⟩ else ⟨p.parts ++ partsOf s⟩

def Path.text (p : Path) : String :=
  "/" ++ "/".intercalate p.parts

def normalParts (done : List String) : List String → List String
  | [] => done.reverse
  | p :: ps => if p = ".." then normalParts done.tail ps else normalParts (p :: done) ps

def Path.normal (p : Path) : Path :=
  ⟨normalParts [] p.parts⟩

def Path.name (p : Path) : String :=
  p.parts.getLast?.getD ""

def Path.parent (p : Path) : Path :=
  ⟨p.parts.dropLast⟩

def Path.extended (p : Path) (s : String) : Path :=
  ⟨p.parts.dropLast ++ [p.name ++ s]⟩

/-- A name before its last dot and from it on. A dot that comes first or last divides nothing. -/
def splitSuffix (name : List Char) : List Char × List Char :=
  let tail := (name.reverse.takeWhile (· ≠ '.')).reverse
  let head := (name.reverse.dropWhile (· ≠ '.')).reverse.dropLast
  if tail.isEmpty || head.isEmpty || tail.length = name.length then (name, [])
  else (head, '.' :: tail)

def suffix (name : String) : String :=
  String.ofList (splitSuffix name.toList).2

def stem (name : String) : String :=
  String.ofList (splitSuffix name.toList).1

end ElementBundle.Disk
