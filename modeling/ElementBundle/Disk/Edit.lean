import ElementBundle.Disk.Tree

/-!
# Edits of a tree

What someone else can do to the files of a project while it is worked on.
-/

namespace ElementBundle.Disk

inductive Edit where
  /-- Writes a file, with the directories above it. A file that is there may keep its stamp. -/
  | write (path : Path) (bytes : List UInt8) (keepStamp : Bool)
  /-- Gives a file a new stamp. -/
  | touch (path : Path)
  /-- Makes a directory and those above it. -/
  | makeDirectory (path : Path)
  /-- Removes a file, or a directory with all in it. -/
  | remove (path : Path)
  /-- Moves a file or a directory; stamps stay. -/
  | rename (source target : Path)
  deriving DecidableEq, Repr

def Tree.overwrite (t : Tree) (p : Path) (bytes : List UInt8) : Except Refusal Tree :=
  match t.get p with
  | .ok (.file _ stamp) => .ok (t.put p.parts (.file bytes stamp))
  | _ => t.write p bytes

def Edit.apply (t : Tree) : Edit → Except Refusal Tree
  | .write path bytes keepStamp => do
    let t ← t.makeDirectory path.parent
    if keepStamp then t.overwrite path bytes else t.write path bytes
  | .touch path =>
    match t.get path with
    | .ok (.file bytes _) => .ok (t.stampFile path.parts bytes)
    | .ok .directory => .ok t
    | .error e => .error e
  | .makeDirectory path => t.makeDirectory path
  | .remove path =>
    match t.get path with
    | .ok _ => .ok (t.erase path.parts)
    | .error e => .error e
  | .rename source target =>
    match t.get source, t.get target.parent with
    | .error e, _ | _, .error e => .error e
    | .ok _, .ok (.file ..) => .error .notDirectory
    | .ok _, .ok .directory =>
      if t.isDirectory target then .error .isDirectory else .ok (t.move source.parts target.parts)

def applyAll (t : Tree) : List Edit → Except Refusal Tree
  | [] => .ok t
  | e :: es => do
    let t ← e.apply t
    applyAll t es

end ElementBundle.Disk
