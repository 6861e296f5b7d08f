import ElementBundle.Disk.Path

/-!
# A tree of files

A disk is a list of entries, each at its place: a directory, or a file with its bytes and the stamp
of its last change. The top is always a directory. Every change of a file takes a stamp that no file
had before. The order of the entries has no meaning. Links are left out: an entry is a directory or a
file, so a path leads to one place at most and resolving it only takes out `..`.
-/

namespace ElementBundle.Disk

inductive Entry where
  | directory
  | file (bytes : List UInt8) (stamp : Nat)
  deriving DecidableEq, Repr

inductive Refusal where
  | notFound
  | isDirectory
  | notDirectory
  | exists
  deriving DecidableEq, Repr

/-- Entries at their places, and the next stamp. There are no links among them. -/
structure Tree where
  entries : List (List String × Entry)
  nextStamp : Nat := 0
  deriving DecidableEq, Repr

def Tree.at? (t : Tree) (place : List String) : Option Entry :=
  if place.isEmpty then some .directory else t.entries.lookup place

def Tree.isDirectoryAt (t : Tree) (place : List String) : Bool :=
  t.at? place == some .directory

def Tree.put (t : Tree) (place : List String) (entry : Entry) : Tree :=
  { t with entries := (place, entry) :: t.entries.filter (·.1 ≠ place) }

def Tree.erase (t : Tree) (place : List String) : Tree :=
  { t with entries := t.entries.filter fun e => !place.isPrefixOf e.1 }

/-- Walks a path from a place. Each step but the last has to arrive at a directory. -/
def Tree.walk (t : Tree) (place : List String) : List String → Except Refusal (List String)
  | [] => .ok place
  | p :: ps =>
    match t.at? place with
    | none => .error .notFound
    | some (.file ..) => .error .notDirectory
    | some .directory => t.walk (if p = ".." then place.dropLast else place ++ [p]) ps

def Tree.place (t : Tree) (p : Path) : Except Refusal (List String) :=
  t.walk [] p.parts

def Tree.get (t : Tree) (p : Path) : Except Refusal Entry :=
  match t.place p with
  | .error e => .error e
  | .ok place =>
    match t.at? place with
    | some entry => .ok entry
    | none => .error .notFound

def Tree.exists (t : Tree) (p : Path) : Bool :=
  match t.get p with
  | .ok _ => true
  | .error _ => false

def Tree.isDirectory (t : Tree) (p : Path) : Bool :=
  match t.get p with
  | .ok .directory => true
  | _ => false

def Tree.read (t : Tree) (p : Path) : Except Refusal (List UInt8) :=
  match t.get p with
  | .ok (.file bytes _) => .ok bytes
  | .ok .directory => .error .isDirectory
  | .error e => .error e

def Tree.stampFile (t : Tree) (place : List String) (bytes : List UInt8) : Tree :=
  { t.put place (.file bytes t.nextStamp) with nextStamp := t.nextStamp + 1 }

def Tree.write (t : Tree) (p : Path) (bytes : List UInt8) : Except Refusal Tree :=
  match t.place p with
  | .error e => .error e
  | .ok place =>
    if t.isDirectoryAt place then .error .isDirectory else .ok (t.stampFile place bytes)

def Tree.makeFrom (t : Tree) (done : List String) : List String → Except Refusal Tree
  | [] => .ok t
  | p :: ps =>
    let place := done ++ [p]
    match t.at? place with
    | some .directory => t.makeFrom place ps
    | some (.file ..) => .error (if ps.isEmpty then .exists else .notDirectory)
    | none => (t.put place .directory).makeFrom place ps

/-- Makes a directory and those above it; it may be there already. The path has no two dots. -/
def Tree.makeDirectory (t : Tree) (p : Path) : Except Refusal Tree :=
  t.makeFrom [] p.parts

def Tree.children (t : Tree) (place : List String) : List (String × Entry) :=
  t.entries.filterMap fun (q, entry) =>
    match q.getLast? with
    | some name => if q.dropLast = place then some (name, entry) else none
    | none => none

def Tree.move (t : Tree) (source target : List String) : Tree :=
  let moved := t.entries.filterMap fun (q, entry) =>
    if source.isPrefixOf q then some (target ++ q.drop source.length, entry) else none
  { t with entries := moved ++ ((t.erase source).erase target).entries }

end ElementBundle.Disk
