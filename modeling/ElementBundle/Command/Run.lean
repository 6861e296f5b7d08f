import ElementBundle.Command.Help
import ElementBundle.Component.Name
import ElementBundle.Console.Report
import ElementBundle.Project.SettingsFile
import ElementBundle.Project.Watch

/-!
# Running a command

A command works on the files of a project, may ask its user one question, and shows lines of text.
It ends with a status, or by a fault that it does not handle itself. What reads settings files and
what shows texts with styles are parameters.
-/

namespace ElementBundle.Command

open ElementBundle.Component ElementBundle.Console ElementBundle.Disk ElementBundle.Project
open ElementBundle.Text

def terminalWidth : Nat := 200

inductive Answer where
  | line (text : String)
  | ended
  | interrupted
  deriving DecidableEq, Repr

inductive Ending where
  | status (n : Nat)
  | fault (f : Fault)

/-- What a command leaves behind: the files, what it showed, what happened, and how it ended. -/
structure Run where
  tree : Tree
  shown : List Char := []
  moments : List Moment := []
  ending : Ending := .status 0

def shownLines (lines : List (List Char)) : List Char :=
  lines.flatMap (· ++ ['\n'])

/-- Puts text and events in front of what a command leaves behind. -/
def Run.after (shown : List Char) (events : List Event) (r : Run) : Run :=
  { r with shown := shown ++ r.shown, moments := events.map .event ++ r.moments }

/-- What shows texts on the terminal. A text with marks of styles may be one that cannot be shown. -/
structure Printer where
  styled : String → Except Fault (List Char)
  plain : String → List Char

def styles : List String := ["bold red", "cyan", "green", "yellow"]

def styleMarks : List (List Char) :=
  styles.flatMap fun name => [("[" ++ name ++ "]").toList, ("[/" ++ name ++ "]").toList]

/-- A text without marks of the styles that commands use. The number counts the characters of a mark
that are still to be passed over. -/
def withoutMarks : Nat → List Char → List Char
  | _, [] => []
  | n + 1, _ :: s => withoutMarks n s
  | 0, c :: s =>
    match styleMarks.find? (·.isPrefixOf (c :: s)) with
    | some mark => withoutMarks (mark.length - 1) s
    | none => c :: withoutMarks 0 s

def Printer.usual : Printer where
  styled text := .ok (shownLines (wrap terminalWidth (withoutMarks 0 text.toList)))
  plain text := shownLines (wrap terminalWidth text.toList)

/-- Shows a text and goes on, unless it cannot be shown. -/
def Printer.say (p : Printer) (t : Tree) (text : String) (next : Run) : Run :=
  match p.styled text with
  | .ok shown => next.after shown []
  | .error f => { tree := t, ending := .fault f }

def Printer.fail (p : Printer) (t : Tree) (message : String) : Run :=
  p.say t ("[bold red]Error:[/bold red] " ++ message) { tree := t, ending := .status 1 }

/-- Ends a command by a fault. Errors of the configuration are shown. -/
def Printer.stop (p : Printer) (t : Tree) : Fault → Run
  | .config e => p.fail t e.message
  | f => { tree := t, ending := .fault f }

def ask (t : Tree) (question : String) (answer : Answer) (go : String → Run) : Run :=
  match answer with
  | .line text => (go text).after question.toList []
  | .ended => { tree := t, shown := question.toList, ending := .fault .endOfInput }
  | .interrupted =>
    { tree := t, shown := question.toList ++ "\nTerminated by user.\n".toList, ending := .status 1 }

/-- Makes a directory and an empty bundle, where they are missing. What is made before a refusal
stays. -/
def makeMissing (t : Tree) (directory bundle : Path) : Tree × Option Refusal :=
  match if t.exists directory then Except.ok t else t.makeDirectory directory with
  | .error r => (t, some r)
  | .ok t =>
    if t.exists bundle then (t, none)
    else
      match t.write bundle [] with
      | .ok t => (t, none)
      | .error r => (t, some r)

def includeText (s : Settings) : String :=
  let directory := replaceAll '.' "/public".toList [] s.components.display.toList
  "<script src=\"" ++ String.ofList directory ++ "/" ++ s.output.display ++ "\"></script>"

def prepare (p : Printer) (s : Settings) (t : Tree) : Run :=
  match s.componentsPath, s.outputPath with
  | .error f, _ | _, .error f => p.stop t f
  | .ok directory, .ok bundle =>
    let made : Run :=
      match makeMissing t directory bundle with
      | (t, some r) => p.stop t (.disk r)
      | (t, none) =>
        p.say t "You're all set! Run [cyan]composcript watch[/cyan] and add this to your HTML file:"
          { tree := t, shown := p.plain (includeText s) }
    if t.exists directory then made else p.say t "Creating components directory" made

def setUp (p : Printer) (root : Path) (t : Tree) (components : String) : Run :=
  let components := if components.isEmpty then "./components" else components
  let settings : Settings := { root := root.normal, components := .text components }
  let saved := settings.save t
  let run :=
    match saved.outcome with
    | .error f => p.stop saved.tree f
    | .ok (path, _) =>
      p.say saved.tree ("Wrote [cyan]" ++ path.text ++ "[/cyan]") (prepare p settings saved.tree)
  run.after [] saved.events

def runInit (p : Printer) (root : Path) (t : Tree) (answer : Answer) (components : Option String)
    (yes : Bool) : Run :=
  let run :=
    if components.isNone && !yes then
      ask t "Components directory (default: ./components): " answer (setUp p root t)
    else setUp p root t (components.getD "")
  run.after "\nInitializing Composcript config\n\n".toList []

def scaffoldAt (p : Printer) (s : Settings) (t : Tree) (tag : String) : Run :=
  match s.componentsPath with
  | .error f => p.stop t f
  | .ok directory =>
    let file := directory.join (tag ++ s.extension)
    if t.exists file then p.fail t (file.text ++ " already exists")
    else
      match t.makeDirectory directory with
      | .error r => p.stop t (.disk r)
      | .ok t =>
        match t.write file (encodeUtf8 (scaffold tag.toList)) with
        | .error r => p.stop t (.disk r)
        | .ok t =>
          p.say t ("Created [yellow]" ++ String.ofList (className tag.toList) ++
            "[/yellow] [cyan]<" ++ tag ++ " />[/cyan] in [green]" ++ file.text ++ "[/green]")
            { tree := t }

def createTag (p : Printer) (s : Settings) (t : Tree) (tag : String) : Run :=
  if isTag tag.toList then scaffoldAt p s t tag
  else
    p.say t ("[bold red]<" ++ tag ++ "></" ++ tag ++ ">: Invalid tag name[/bold red], use kebab-case " ++
      "(lowercase letters and hyphens) with at least two words and no numbers in the first word")
      { tree := t, ending := .status 1 }

def withSettings (host : Host) (p : Printer) (root : Path) (t : Tree) (go : Settings → Run) : Run :=
  match loadSettings host t root with
  | (events, .error f) => (p.stop t f).after [] events
  | (events, .ok s) => (go s).after [] events

def runCreate (host : Host) (p : Printer) (root : Path) (t : Tree) (answer : Answer)
    (tag : Option String) : Run :=
  withSettings host p root t fun s =>
    match tag with
    | none | some "" => ask t "Component tag name (e.g. my-component): " answer (createTag p s t)
    | some tag => createTag p s t tag

def showResult (quiet diff : Bool) (r : Result) : List Char :=
  let rows := r.reports.map (·.row)
  shownLines (diagnostics terminalWidth rows) ++
    (if quiet then []
      else shownLines (report terminalWidth rows ++ summary terminalWidth r.summary r.path.text)) ++
    (if diff && r.stage ≠ .aborted then
        shownLines (difference terminalWidth r.previous r.output r.path.name)
      else [])

def runBuild (host : Host) (p : Printer) (root : Path) (t : Tree) (quiet dryRun diff : Bool) : Run :=
  withSettings host p root t fun s =>
    let pass := Engine.build { settings := s } t quiet dryRun
    let run : Run :=
      match pass.outcome with
      | .error f => p.stop pass.tree f
      | .ok r =>
        { tree := pass.tree, shown := showResult quiet diff r
          ending := .status (if r.stage = .aborted then 1 else 0) }
    run.after (if quiet then [] else ['\n']) pass.events

def showMoment : Moment → List Char
  | .result _ r => showResult true false r
  | _ => []

/-- `watch`: builds the bundle whenever components change. The list holds the edits that others make
while it waits; then the user interrupts it. -/
def runWatch (host : Host) (p : Printer) (root : Path) (t : Tree) (waits : List (List Edit)) : Run :=
  withSettings host p root t fun s =>
    match s.componentsPath with
    | .error f => p.stop t f
    | .ok directory =>
      let w := Engine.watch { settings := s } t (milliseconds 0.25) waits
      let shown := w.moments.flatMap showMoment
      p.say t ("[green]Watching for changes in " ++ directory.text ++ "[/green]")
        (match w.fault with
        | some f => { tree := w.tree, shown, moments := w.moments, ending := .fault f }
        | none =>
          { tree := w.tree, shown := shown ++ "\nStopped watching.\n".toList, moments := w.moments })

/-- Whether a moment is told: results are shown, and details only if asked for. -/
def isTold (verbose : Bool) : Moment → Bool
  | .event e => verbose || e.isPublic
  | .tick _ | .crashed _ => true
  | .result .. => false

def run (host : Host) (p : Printer) (here : Path) (t : Tree) (answer : Answer)
    (waits : List (List Edit)) (i : Invocation) : Run :=
  let root := (here.join i.project).normal
  let r : Run :=
    match i.action with
    | none =>
      { tree := t, ending := .status 1
        shown := shownLines (fittedFrame ("Composcript " ++ versionText).toList) ++ helpText none }
    | some (.init components yes) => runInit p root t answer components yes
    | some (.create tag) => runCreate host p root t answer tag
    | some (.build quiet dryRun diff) => runBuild host p root t quiet dryRun diff
    | some .watch => runWatch host p root t waits
  { r with moments := r.moments.filter (isTold i.verbose) }

/-- Runs a command line. Misuse shows nothing and ends with status two. -/
def runLine (host : Host) (p : Printer) (here : Path) (t : Tree) (answer : Answer)
    (waits : List (List Edit)) (arguments : List String) : Run :=
  match readLine arguments with
  | .error (.help name) => { tree := t, shown := helpText name }
  | .error .version => { tree := t, shown := ("composcript " ++ versionText ++ "\n").toList }
  | .error .misuse => { tree := t, ending := .status 2 }
  | .ok i => run host p here t answer waits i

end ElementBundle.Command
