import ElementBundle.Data.Json
import ElementBundle.Data.Yaml.Content.Edit
import ElementBundle.Data.Yaml.Content.Kept
import ElementBundle.Data.Yaml.Print
import ElementBundle.Project.Event
import ElementBundle.Project.Settings
import ElementBundle.Text.Lines

/-!
# The settings file

Settings stand in a YAML file at the root of a project, or under a key of the package file. Saving
keeps what else is in the YAML file.
-/

namespace ElementBundle.Project

open ElementBundle.Data ElementBundle.Disk ElementBundle.Text

def settingsName : String := "composcript.yaml"

def packageName : String := "package.json"

def packageKey : String := "composcript"

def readText (t : Tree) (path : Path) : Except Fault (List Char) :=
  match t.read path with
  | .error r => .error (.disk r)
  | .ok bytes =>
    match decodeUtf8 bytes with
    | .ok text => .ok (unifyNewlines text)
    | .error _ => .error .notUtf8

def keyOf? : Value → Option Key
  | .text name => Key.ofName? name
  | _ => none

/-- The settings that a value holds. Keys that name no setting are told, in order, up to one that
cannot be shown. -/
def Settings.ofValue (depth : Nat) (root source : Path) (v : Value) :
    List Event × Except Fault Settings :=
  match v with
  | .mapping entries =>
    match sortValues? ((entries.map (·.1)).filter fun k => (keyOf? k).isNone) with
    | none => ([], .error .wrongType)
    | some unknown =>
      let told := unknown.takeWhile fun k => (k.unshown? depth).isNone
      (told.map fun k => .unknownKey k.display source.name,
        match unknown.findSome? (·.unshown? depth) with
        | some cause => .error (.unshown cause)
        | none => Settings.make root (entries.filterMap fun (k, v) => (keyOf? k).map (·, v)) depth)
  | _ => ([], .error (.config (.notMapping source.text)))

/-- What a package file holds under the key of the settings. Only a mapping has keys; asking for one
is an error unless the file is a list or a text without it. -/
def packageSettings (package : Value) : Except Fault (Option Value) :=
  match package with
  | .mapping _ => .ok (package.get? packageKey)
  | .list items =>
    if items.any fun
        | .text s => s == packageKey
        | _ => false
    then .error .wrongType
    else .ok none
  | .text s => if contains packageKey.toList s.toList then .error .wrongType else .ok none
  | _ => .error .wrongType

/-- What a program does not bring itself: readers for the two formats of settings, the words in which
they tell why a text is malformed, and the depth to which values can be shown. -/
structure Host where
  yaml : List Char → Except Yaml.Flaw Value
  json : List Char → Except Json.Flaw Value
  yamlCause : List Char → String
  jsonCause : List Char → String
  depth : Nat

def Host.usual : Host :=
  ⟨Yaml.read, Json.read, fun _ => "", fun _ => "", 900⟩

def loadSettings (host : Host) (t : Tree) (root : Path) : List Event × Except Fault Settings :=
  let root := root.normal
  let path := root.join settingsName
  if t.exists path then
    match readText t path with
    | .error fault => ([], .error fault)
    | .ok text =>
      match host.yaml text with
      | .error .malformed => ([], .error (.config (.badYaml path.text (host.yamlCause text))))
      | .error flaw => ([], .error (.yaml flaw))
      | .ok v => Settings.ofValue host.depth root path (if v.isAbsent then .mapping [] else v)
  else
    let path := root.join packageName
    let missing : List Event × Except Fault Settings :=
      ([], .error (.config (.noSettings root.text)))
    if t.exists path then
      match readText t path with
      | .error fault => ([], .error fault)
      | .ok text =>
        match host.json text with
        | .error .malformed => ([], .error (.config (.badJson path.text (host.jsonCause text))))
        | .error flaw => ([], .error (.json flaw))
        | .ok package =>
          match packageSettings package with
          | .error fault => ([], .error fault)
          | .ok (some v) => Settings.ofValue host.depth root path v
          | .ok none => missing
    else missing

/-- What saving leaves behind: the path and the text of the file. -/
structure Saved where
  events : List Event := []
  tree : Tree
  outcome : Except Fault (Path × List Char)

/-- Writes the settings of a project into a document. What else is in it stays. -/
def Settings.write (s : Settings) (t : Tree) (declared : Yaml.Declared) (kept : Yaml.KeptDocument) :
    Saved :=
  let path := s.root.join settingsName
  let values := Key.all.map fun k => (k.name, s.value k)
  let content := Yaml.Content.update kept.known declared.version values kept.content
  let (text, outcome) := Yaml.print declared (content.settled kept.known)
  match t.write path (encodeUtf8 text) with
  | .error r => { tree := t, outcome := .error (.disk r) }
  | .ok tree =>
    match outcome with
    | .ok () => { tree, outcome := .ok (path, text) }
    | .error flaw => { tree, outcome := .error (.yaml flaw) }

/-- Writes the settings of a project into its settings file. A file that is no YAML is told and
overwritten; only its directives stay. -/
def Settings.save (s : Settings) (t : Tree) : Saved :=
  let path := s.root.join settingsName
  if t.exists path then
    match readText t path with
    | .error fault => { tree := t, outcome := .error fault }
    | .ok text =>
      let (document, declared) := Yaml.document true text
      match document.bind fun d => d.keep declared.version text.length with
      | .ok kept => s.write t declared kept
      | .error .malformed => { s.write t declared {} with events := [.overwriting path.name] }
      | .error flaw => { tree := t, outcome := .error (.yaml flaw) }
  else s.write t {} {}

end ElementBundle.Project
