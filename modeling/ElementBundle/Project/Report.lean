import ElementBundle.Component.Compile
import ElementBundle.Disk.Tree
import ElementBundle.Text.Quoted
import ElementBundle.Text.Utf8

/-!
# Reports on components

A build reports on each component file: what it compiled to, or why it failed. A report is shown as
a row, and a summary counts the rows.
-/

namespace ElementBundle.Project

open ElementBundle.Component ElementBundle.Disk ElementBundle.Text

inductive Stage where
  | idle
  | scanning
  | render
  | extract
  | generate
  | append
  | aborted
  deriving DecidableEq, Repr

def Stage.name : Stage → String
  | .idle => "idle"
  | .scanning => "scanning"
  | .render => "rewrite"
  | .extract => "extract"
  | .generate => "generate"
  | .append => "append"
  | .aborted => "aborted"

def Stage.ofPhase : Phase → Stage
  | .render => .render
  | .extract => .extract
  | .generate => .generate

inductive Unreadable where
  /-- Its bytes are no UTF-8. -/
  | encoding (fault : Utf8Fault)
  /-- It cannot be read at a path. -/
  | refused (refusal : Refusal) (path : Path)
  deriving DecidableEq, Repr

def encodingText (f : Utf8Fault) : String :=
  let place :=
    match f.bytes with
    | [b] =>
      "byte 0x" ++ String.ofList (hex 2 b.toNat) ++ " in position " ++ toString f.offset
    | bytes =>
      "bytes in position " ++ toString f.offset ++ "-" ++ toString (f.offset + bytes.length - 1)
  let cause :=
    match f.cause with
    | .badStart => "invalid start byte"
    | .badContinuation => "invalid continuation byte"
    | .truncated => "unexpected end of data"
  "'utf-8' codec can't decode " ++ place ++ ": " ++ cause

def refusalText (r : Refusal) (path : Path) : String :=
  let cause :=
    match r with
    | .notFound => "[Errno 2] No such file or directory"
    | .isDirectory => "[Errno 21] Is a directory"
    | .notDirectory => "[Errno 20] Not a directory"
    | .exists => "[Errno 17] File exists"
  cause ++ ": " ++ String.ofList (shown path.text.toList)

inductive Cause where
  | component (error : Component.Error)
  | unreadable (why : Unreadable)
  deriving DecidableEq, Repr

def Cause.code : Cause → String
  | .component e => e.code
  | .unreadable _ => "COMPILE_ERROR"

def Cause.line? : Cause → Option Nat
  | .component e => e.line?
  | .unreadable _ => none

def Cause.message (file : String) : Cause → String
  | .component e => e.message (some file)
  | .unreadable (.encoding f) => placed (some file) none ("Unreadable file: " ++ encodingText f)
  | .unreadable (.refused r path) =>
    placed (some file) none ("Unreadable file: " ++ refusalText r path)

structure Product where
  tag : List Char
  className : List Char
  attributes : Nat
  required : List (List Char)
  markupBlocks : Nat
  output : List Char
  deriving DecidableEq, Repr

inductive Outcome where
  | compiled (product : Product)
  | failed (cause : Cause)
  deriving DecidableEq, Repr

/-- The report on a component file; its tag is the name of the file without suffix. -/
structure Report where
  file : String
  tag : String
  outcome : Outcome
  deriving DecidableEq, Repr

def Report.product? (r : Report) : Option Product :=
  match r.outcome with
  | .compiled p => some p
  | .failed _ => none

def Report.success (r : Report) : Bool :=
  r.product?.isSome

def Report.failure? (r : Report) : Option String :=
  match r.outcome with
  | .compiled _ => none
  | .failed cause => some (cause.message r.file)

/-- The result of a build. `output` is the text of the bundle, written or not, and `previous` the one
that was there before. -/
structure Result where
  stage : Stage
  path : Path
  reports : List Report
  output : List Char
  previous : Option (List Char)
  written : Bool
  deriving DecidableEq, Repr

def Result.failures (r : Result) : List Report :=
  r.reports.filter (!·.success)

/-- A report as it is shown; a field may be unknown. -/
structure Row where
  file : Option String := none
  tag : Option String := none
  className : Option String := none
  attributes : Option Int := none
  markupBlocks : Option Int := none
  status : Option String := none
  error : Option String := none
  success : Bool := false

def Report.row (r : Report) : Row :=
  match r.outcome with
  | .compiled p =>
    { file := some r.file, tag := some (String.ofList p.tag)
      className := some (String.ofList p.className), attributes := some p.attributes
      markupBlocks := some p.markupBlocks, status := some "COMPILED", success := true }
  | .failed cause =>
    { file := some r.file, tag := some r.tag, status := some cause.code
      error := some (cause.message r.file) }

structure Summary where
  total : Nat
  compiled : Nat
  failed : Nat
  attributes : Int
  markupBlocks : Int
  written : Bool
  bytes : Nat
  stage : Stage

def sumOf (ns : List Int) : Int :=
  ns.foldr (· + ·) 0

def Summary.ofRows (rows : List Row) (written : Bool) (output : List Char) (stage : Stage) :
    Summary :=
  let compiled := rows.filter (·.success)
  { total := rows.length
    compiled := compiled.length
    failed := rows.length - compiled.length
    attributes := sumOf (compiled.map (·.attributes.getD 0))
    markupBlocks := sumOf (compiled.map (·.markupBlocks.getD 0))
    written
    bytes := if written then (encodeUtf8 output).length else 0
    stage }

def Result.summary (r : Result) : Summary :=
  Summary.ofRows (r.reports.map (·.row)) r.written r.output r.stage

end ElementBundle.Project
