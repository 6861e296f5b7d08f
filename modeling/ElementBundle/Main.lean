import ElementBundle.Command.Run

/-!
# The program

Reads the files that a command can need into a tree, runs the command on it, and writes what has
changed back to the disk. Only watching looks at the disk again and again.
-/

namespace ElementBundle.Main

open ElementBundle.Command ElementBundle.Disk ElementBundle.Project

def placeText (place : List String) : String :=
  Path.text ⟨place⟩

/-- Puts what is directly inside a directory into a tree. A directory that cannot be listed adds
nothing. -/
def readDirectory (t : Tree) (place : List String) : IO Tree := do
  try
    let mut t := t
    for i in [0:place.length] do
      t := t.put (place.take (i + 1)) .directory
    for entry in ← (← IO.FS.realPath (placeText place)).readDir do
      let info ← entry.path.metadata
      if info.type == .dir then t := t.put (place ++ [entry.fileName]) .directory
      else
        let bytes ← IO.FS.readBinFile entry.path
        let stamp := info.modified.sec.toNat * 1000000000 + info.modified.nsec.toNat
        t := { t.put (place ++ [entry.fileName]) (.file bytes.toList stamp) with
          nextStamp := max t.nextStamp (stamp + 1) }
    return t
  catch _ => return t

/-- Reads the root of a project, and the directory of its components. -/
def readProject (root : Path) : IO Tree := do
  let t ← readDirectory { entries := [] } root.parts
  match (loadSettings .usual t root).2 with
  | .ok s =>
    match s.componentsPath, s.outputPath with
    | .ok directory, .ok bundle =>
      let t ← readDirectory t directory.parts
      if bundle.parent.normal = directory then return t
      else readDirectory t bundle.parent.normal.parts
    | _, _ => return t
  | .error _ => return t

/-- Writes the entries of a tree that another one did not have. A file is replaced as a whole. -/
def writeChanges (before after : Tree) : IO Unit := do
  for (place, entry) in after.entries do
    match entry with
    | .directory =>
      if before.at? place ≠ some .directory then IO.FS.createDirAll (placeText place)
    | .file bytes _ =>
      if before.at? place ≠ some entry then
        let file := placeText place
        IO.FS.createDirAll (placeText place.dropLast)
        IO.FS.writeBinFile (file ++ ".tmp") ⟨bytes.toArray⟩
        IO.FS.rename (file ++ ".tmp") file

def put (text : List Char) : IO Unit := do
  (← IO.getStdout).putStr (String.ofList text)
  (← IO.getStdout).flush

def faultText (f : Fault) : String :=
  f.text?.getD "The command could not be completed."

/-- Tells events, with details only if asked for, and shows results. -/
def tell (verbose : Bool) (moments : List Moment) : IO Unit := do
  for m in moments do
    match m with
    | .event e => if verbose || e.isPublic then IO.eprintln e.message
    | .crashed f => IO.eprintln (faultText f)
    | _ => put (showMoment m)

def finish (ending : Ending) : IO UInt32 := do
  match ending with
  | .status n => return n.toUInt32
  | .fault f =>
    IO.eprintln (faultText f)
    return 1

partial def watchOn (verbose : Bool) (root : Path) (w : Watch) : IO UInt32 := do
  let (w, seen) := { w with tree := ← readProject root }.look
  tell verbose seen
  IO.sleep 250
  let before ← readProject root
  let (w, moments) := { w with tree := before }.wait 250
  writeChanges before w.tree
  tell verbose moments
  watchOn verbose root w

def watch (verbose : Bool) (root : Path) : IO UInt32 := do
  let before ← readProject root
  match (loadSettings .usual before root).2 with
  | .error f =>
    let r := Printer.usual.stop before f
    put r.shown
    finish r.ending
  | .ok s =>
    match s.componentsPath with
    | .error f => finish (.fault f)
    | .ok directory =>
      put (Printer.usual.plain ("Watching for changes in " ++ directory.text))
      let r := Engine.rebuild { settings := s } before 0
      writeChanges before r.tree
      tell verbose r.moments
      match r.fault with
      | some f => finish (.fault f)
      | none =>
        let after ← readProject root
        watchOn verbose root
          { engine := r.engine, tree := after
            watcher := Watcher.start after directory s.extension
            debouncer := { delay := milliseconds s.debounce } }

/-- Runs a command that may ask a question. The question is shown before its answer is read. -/
def interact (i : Invocation) (here : Path) (t : Tree) : IO Run := do
  let r := run .usual .usual here t .ended [] i
  match r.ending with
  | .fault .endOfInput =>
    put r.shown
    let line ← (← IO.getStdin).getLine
    if line.isEmpty then return { r with shown := [] }
    else
      let text := String.ofList (line.toList.takeWhile (· ≠ '\n'))
      let answered := run .usual .usual here t (.line text) [] i
      return { answered with shown := answered.shown.drop r.shown.length }
  | _ => return r

def start (arguments : List String) : IO UInt32 := do
  let here := Path.join ⟨[]⟩ (← IO.FS.realPath ".").toString
  match readLine arguments with
  | .error halt =>
    let r := runLine .usual .usual here { entries := [] } .ended [] arguments
    put r.shown
    if halt = .misuse then IO.eprintln (programHelp.headD "")
    finish r.ending
  | .ok i =>
    let root := (here.join i.project).normal
    if i.action = some .watch then watch i.verbose root
    else
      let before ← readProject root
      let r ← interact i here before
      put r.shown
      tell i.verbose r.moments
      writeChanges before r.tree
      finish r.ending

end ElementBundle.Main

def main (arguments : List String) : IO UInt32 :=
  ElementBundle.Main.start arguments
