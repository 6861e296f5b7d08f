import ElementBundle.Component.Pipeline
import ElementBundle.Project.Event
import ElementBundle.Project.Prelude
import ElementBundle.Project.Settings
import ElementBundle.Text.Lines

/-!
# Building a bundle

A build compiles every component file, in the order of their names, and puts the results behind the
head of the bundle. All files go through one pipeline, which outlives the build. All files are
compiled, so that all failures are reported; then the policy says whether the bundle is written. It
is written to a temporary file first, which takes the place of the bundle at once.
-/

namespace ElementBundle.Project

open ElementBundle.Component ElementBundle.Disk ElementBundle.Text

/-- Whether an entry of the directory is a component file. The bundle itself is none. -/
def Settings.isComponent (s : Settings) (name : String) : Entry → Bool
  | .directory => false
  | .file .. =>
    suffix name == s.extension &&
      match s.output with
      | .text output => name != output
      | _ => true

def nameLE (a b : String) : Bool :=
  decide (a ≤ b)

def Settings.discover (s : Settings) (t : Tree) : Except Fault (List String) := do
  let directory ← s.componentsPath
  if t.isDirectory directory then
    return (((t.children directory.parts).filter fun (name, entry) => s.isComponent name entry).map
      (·.1)).mergeSort nameLE
  else throw (.config (.noComponents directory.text))

/-- The text of a component file, without a mark at its front and with line feeds only. -/
def readSource (t : Tree) (path : Path) : Except Unreadable (List Char) :=
  match t.read path with
  | .error r => .error (.refused r path)
  | .ok bytes =>
    match decodeMarkedUtf8 bytes with
    | .error fault => .error (.encoding fault)
    | .ok text => .ok (unifyNewlines text)

/-- An attempt at a file: the report, the phases that were started, and the remarks. -/
structure Attempt where
  report : Report
  phases : List Phase := []
  remarks : List Remark := []
  deriving DecidableEq, Repr

def productOf (c : Compiled) : Product :=
  { tag := c.descriptor.tag
    className := c.descriptor.className
    attributes := c.descriptor.attributes.length
    required := c.descriptor.required
    markupBlocks := Source.markupBlocks c.tokens
    output := c.output }

def attemptOf (path : Path) (course : Course) : Attempt :=
  match course.outcome with
  | .error d =>
    { report := ⟨path.name, stem path.name, .failed (.component d.error)⟩, phases := course.phases }
  | .ok c =>
    { report := ⟨path.name, stem path.name, .compiled (productOf c)⟩, phases := course.phases
      remarks := c.remarks }

def Settings.attemptWith (s : Settings) (pipeline : Pipeline) (t : Tree) (path : Path) :
    Attempt × Pipeline :=
  match readSource t path with
  | .error why => ({ report := ⟨path.name, stem path.name, .failed (.unreadable why)⟩ }, pipeline)
  | .ok source =>
    let (course, pipeline) := pipeline.run { selfTag := s.selfTag } (some path.name) source
      (some (stem path.name).toList)
    (attemptOf path course, pipeline)

/-- What a pipeline makes of a file if it has not gone through any other one. -/
def Settings.attempt (s : Settings) (t : Tree) (path : Path) : Attempt :=
  (s.attemptWith {} t path).1

/-- Compiles the files of a directory one after the other. Each file gets the pipeline as the one
before has left it. -/
def Settings.survey (s : Settings) (t : Tree) (directory : Path) (pipeline : Pipeline) :
    List String → List Attempt × Pipeline
  | [] => ([], pipeline)
  | name :: names =>
    let first := s.attemptWith pipeline t ⟨directory.parts ++ [name]⟩
    let others := survey s t directory first.2 names
    (first.1 :: others.1, others.2)

def Attempt.stages (a : Attempt) : List Stage :=
  a.phases.map Stage.ofPhase

def Attempt.events (a : Attempt) (before : Stage) : List Event :=
  transitions before a.stages ++ a.remarks.map .remark

def Attempt.closing (a : Attempt) : List Stage :=
  if a.report.success then [.append, .scanning] else [.scanning]

def Attempt.buildEvents (quiet : Bool) (a : Attempt) : List Event :=
  .compiling quiet a.report.file :: a.events .scanning ++
    transitions (lastStage .scanning a.stages) a.closing

/-- The text of a bundle: its head and the products, each behind a line feed. -/
def bundleText (reports : List Report) : List Char :=
  prelude ++ reports.flatMap fun r =>
    match r.product? with
    | some p => '\n' :: p.output
    | none => []

def previousText (t : Tree) (path : Path) : Except Fault (Option (List Char)) :=
  match t.read path with
  | .error .notFound => .ok none
  | .error r => .error (.disk r)
  | .ok bytes =>
    match decodeUtf8 bytes with
    | .ok text => .ok (some (unifyNewlines text))
    | .error _ => .ok none

/-- What the system can do to a bundle that is being written. -/
inductive Trouble where
  /-- Nothing may be written into the directory of the bundle. -/
  | denied
  /-- The temporary file is not written completely; what is left of it, if anything. -/
  | writing (left : Option (List UInt8))
  /-- The temporary file cannot take the place of the bundle. -/
  | replacing
  deriving DecidableEq, Repr

def temporary (target : Path) : Path :=
  target.extended ".tmp"

def cleanUp (t : Tree) (file : Path) : Tree × Except Fault Unit :=
  match t.place file with
  | .error _ => (t, .error .writeFailed)
  | .ok place =>
    match t.at? place with
    | some .directory => (t, .error (.disk .isDirectory))
    | some (.file ..) => (t.erase place, .error .writeFailed)
    | none => (t, .error .writeFailed)

/-- Writes a temporary file, unless there is trouble. -/
def writeTemporary (trouble : Option Trouble) (t : Tree) (file : Path) (bytes : List UInt8) :
    Tree × Bool :=
  match trouble with
  | some (.writing none) => (t, false)
  | some (.writing (some left)) => ((t.write file left).toOption.getD t, false)
  | _ =>
    match t.write file bytes with
    | .ok t => (t, true)
    | .error _ => (t, false)

def writeAtomically (trouble : Option Trouble) (t : Tree) (target : Path) (bytes : List UInt8) :
    Tree × Except Fault Unit :=
  if trouble = some .denied || !t.exists target.parent then
    (t, .error (.noWriteAccess target.parent.text))
  else
    match writeTemporary trouble t (temporary target) bytes with
    | (t, false) => cleanUp t (temporary target)
    | (t, true) =>
      match trouble, t.place (temporary target), t.place target with
      | none, .ok source, .ok place =>
        if t.isDirectoryAt place then cleanUp t (temporary target) else (t.move source place, .ok ())
      | _, _, _ => cleanUp t (temporary target)

structure Concluded where
  outcome : Except Fault Result
  stage : Stage
  tree : Tree
  events : List Event

/-- What a build leaves behind. After each file it has told how many are done, and how many there
are. -/
structure Pass extends Concluded where
  pipeline : Pipeline
  progress : List (Nat × Nat) := []

/-- Applies the policy to reports, and writes the bundle if it allows. The build has come back to
`scanning`. -/
def Settings.conclude (s : Settings) (trouble : Option Trouble) (quiet dryRun : Bool) (t : Tree)
    (result : Result) : Concluded :=
  let failures := result.reports.filterMap (·.failure?)
  let told := failures.map .failed
  if !failures.isEmpty && s.onError = .abort then
    { outcome := .ok { result with stage := .aborted }
      stage := .aborted
      tree := t
      events := told ++ [.aborted failures.length result.path.name, .transition .scanning .aborted] }
  else if dryRun then
    { outcome := .ok result, stage := .idle, tree := t
      events := told ++ [.transition .scanning .idle] }
  else
    match writeAtomically trouble t result.path (encodeUtf8 result.output) with
    | (t, .error fault) => { outcome := .error fault, stage := .scanning, tree := t, events := told }
    | (t, .ok ()) =>
      { outcome := .ok { result with written := true }, stage := .idle, tree := t
        events := told ++ [.wrote quiet result.path.text, .transition .scanning .idle] }

def Settings.build (s : Settings) (pipeline : Pipeline) (stage : Stage) (t : Tree)
    (quiet dryRun : Bool) (trouble : Option Trouble := none) : Pass :=
  match s.componentsPath, s.outputPath with
  | .error fault, _ | _, .error fault =>
    { outcome := .error fault, stage, tree := t, events := [], pipeline }
  | .ok directory, .ok path =>
    match s.discover t with
    | .error fault =>
      { outcome := .error fault, stage := .aborted, tree := t
        events := transitions stage [.scanning, .aborted], pipeline }
    | .ok files =>
      let surveyed := s.survey t directory pipeline files
      let reports := surveyed.1.map (·.report)
      let events := .transition stage .scanning :: surveyed.1.flatMap (·.buildEvents quiet)
      let progress := (List.range files.length).map fun n => (n + 1, files.length)
      match previousText t path with
      | .error fault =>
        { outcome := .error fault, stage := .scanning, tree := t, events
          pipeline := surveyed.2, progress }
      | .ok previous =>
        let concluded := s.conclude trouble quiet dryRun t
          { stage := .idle, path, reports, output := bundleText reports, previous, written := false }
        { concluded with events := events ++ concluded.events, pipeline := surveyed.2, progress }

end ElementBundle.Project
