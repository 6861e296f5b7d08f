import ElementBundle.Command.Run
import ElementBundle.Proofs.Project.Composition
import ElementBundle.Proofs.Text.Encoding

/-! # Documents that hold no settings

Settings are read from the value of a document. What refuses a document, and by
which fault, is told here by what the document holds (`Refused`), whatever its
shape. Most refusals are errors of the configuration, which a command shows as
far as its printer can. The others end the command: keys that name no setting and
cannot be put in order, a key or a policy that cannot be shown, an extension that
is no text, a delay that is no number, and a package file that is no mapping.
-/

namespace ElementBundle.Project

open ElementBundle.Data ElementBundle.Disk ElementBundle.Text ElementBundle.Command

/-! ## What a mapping holds -/

/-- What the files of a project say about its settings. -/
inductive Document where
  | missing
  | malformed (error : ConfigError)
  | settings (v : Value)
  | package (v : Value)

/-- A file is there and has a text. -/
structure Holds (t : Tree) (path : Path) (text : List Char) : Prop where
  file : t.exists path = true
  text_eq : readText t path = .ok text

/-- The files of a project are texts, and on these the readers return a value or say that the text is
malformed. -/
structure Host.Reads (host : Host) (t : Tree) (root : Path) : Prop where
  settings : t.exists (root.join settingsName) = true →
    ∃ text, readText t (root.join settingsName) = .ok text ∧
      ∀ flaw, host.yaml text = .error flaw → flaw = .malformed
  package : t.exists (root.join packageName) = true →
    ∃ text, readText t (root.join packageName) = .ok text ∧
      ∀ flaw, host.json text = .error flaw → flaw = .malformed

section
variable {depth : Nat} {root source : Path} {entries : List (Value × Value)} {f : Fault}

end

end ElementBundle.Project
