import ElementBundle.Console.Frame
import ElementBundle.Console.Table
import ElementBundle.Diff.Unified
import ElementBundle.Project.Report

/-!
# Reports on the console

What a build shows to its user: a line for each failure, a table of the components, a summary, and
the difference of the bundle to the one before.
-/

namespace ElementBundle.Console

open ElementBundle.Text ElementBundle.Project

def diagnostics (width : Nat) (rows : List Row) : List (List Char) :=
  (rows.filter (!·.success)).flatMap fun r =>
    wrap width ("✗ " ++ r.status.getD "None" ++ " " ++ r.error.getD "None").toList

def reportColumns : List Column :=
  [⟨"File", .left⟩, ⟨"Tag", .left⟩, ⟨"Class", .left⟩, ⟨"Attributes", .right⟩, ⟨"Status", .left⟩,
    ⟨"Result", .center⟩]

def reportCells (r : Row) : List String :=
  [r.file.getD "", "<" ++ r.tag.getD "None" ++ ">", r.className.getD "-",
    (r.attributes.map toString).getD "-", r.status.getD "None", if r.success then "✅" else "❌"]

def report (width : Nat) (rows : List Row) : List (List Char) :=
  table width "Composcript Build Report" reportColumns (rows.map reportCells)

/-- The summary of a build that wrote, or did not write, a bundle at a path. -/
def summary (width : Nat) (s : Summary) (path : String) : List (List Char) :=
  let headline :=
    if s.stage = .aborted then "Build aborted, bundle not written"
    else if s.written then "OK → " ++ path
    else "Dry run, bundle not written"
  framedText width ("\n".intercalate
    [headline, "════════════════════════════════════════",
      "Components:     " ++ toString s.total, "Compiled:       " ++ toString s.compiled,
      "Failed:         " ++ toString s.failed,
      "Markup blocks:  " ++ toString s.markupBlocks]).toList

/-- Lines of a listing behind their numbers. A line that is too long is cut. -/
def numbered (width : Nat) (lines : List (List Char)) : List (List Char) :=
  let digits := (toString lines.length).length
  lines.zipIdx.map fun (line, i) =>
    padStart (digits + 2) (toString (i + 1)).toList ++ ' ' ::
      crop (width - (digits + 3)) ((expandTabs 4 0 line).filter (!isSuppressed ·))

def difference (width : Nat) (previous : Option (List Char)) (current : List Char)
    (name : String) : List (List Char) :=
  let linesOf (s : List Char) := (splitLines s).map String.ofList
  match Diff.unified ("Previous: " ++ name) "New build" (linesOf (previous.getD []))
      (linesOf current) with
  | [] => wrap width ("ℹ No changes in " ++ name ++ ".").toList
  | lines =>
    frame width (some ("Bundle diff: " ++ name).toList)
      (numbered (width - 4) (lines.map String.toList))

end ElementBundle.Console
