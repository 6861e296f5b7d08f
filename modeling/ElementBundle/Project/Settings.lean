import ElementBundle.Data.Value
import ElementBundle.Decimal.Read
import ElementBundle.Disk.Path
import ElementBundle.Project.Fault

/-!
# Settings of a project

Six settings say where the components are, which bundle they make, and what happens to errors. A
settings file may hold values of any type. The policy is checked first, then the extension, then the
delay; directory, bundle and self tag are kept as they are, and only using them as paths can fail.
-/

namespace ElementBundle.Project

open ElementBundle.Data ElementBundle.Disk

/-- The settings, in the order in which they are written. -/
inductive Key where
  | components
  | output
  | extension
  | selfRenderTag
  | debounce
  | onError
  deriving DecidableEq, Repr

def Key.all : List Key :=
  [.components, .output, .extension, .selfRenderTag, .debounce, .onError]

def Key.name : Key → String
  | .components => "components"
  | .output => "output"
  | .extension => "extension"
  | .selfRenderTag => "self_render_tag"
  | .debounce => "debounce"
  | .onError => "on_error"

def Key.ofName? (name : String) : Option Key :=
  Key.all.find? (·.name == name)

/-- What a failed component does to the bundle. -/
inductive Policy where
  /-- The bundle is not written. -/
  | abort
  /-- The bundle is written without the component. -/
  | skip
  deriving DecidableEq, Repr

def Policy.name : Policy → String
  | .abort => "abort"
  | .skip => "skip"

structure Settings where
  root : Path
  components : Value := .text "components"
  output : Value := .text "compiled.js"
  extension : String := ".jsx"
  selfRenderTag : Value := .text "This"
  debounce : Float := 0.5
  onError : Policy := .abort

def given? (values : List (Key × Value)) (key : Key) : Option Value :=
  (values.reverse.find? (·.1 = key)).map (·.2)

/-- Reads a policy. The message about another value shows it, if it is not nested too deep. -/
def readPolicy (depth : Nat) : Option Value → Except Fault Policy
  | none | some (.text "abort") => .ok .abort
  | some (.text "skip") => .ok .skip
  | some v =>
    match v.unshown? depth with
    | none => .error (.config (.unknownPolicy v.display))
    | some cause => .error (.unshown cause)

/-- Reads an extension, and puts a dot in front if it has none. Bytes have fronts like a text, but no
dot is one. -/
def readExtension : Option Value → Except Fault String
  | none => .ok ".jsx"
  | some (.text s) => .ok (if s.toList.head? = some '.' then s else "." ++ s)
  | some (.bytes _) => .error .wrongType
  | some _ => .error .extensionNotText

def readDelay : Option Value → Except Fault Float
  | none => .ok 0.5
  | some (.float x) => .ok x
  | some (.bool b) => .ok (if b then 1.0 else 0.0)
  | some (.int n) =>
    match Decimal.floatOfInt? n with
    | some x => .ok x
    | none => .error .tooLarge
  | some (.text s) => delayOf (Decimal.readFloat? s.toList) (.text s)
  | some (.bytes bs) => delayOf (latinText? bs >>= Decimal.readFloat?) (.bytes bs)
  | some _ => .error .wrongType
where
  /-- The delay that has been read from a value. -/
  delayOf (x : Option Float) (v : Value) : Except Fault Float :=
    match x with
    | some x => .ok x
    | none => .error (.notNumber v.shown)
  /-- The text of bytes, if all are characters of basic Latin. -/
  latinText? (bs : List UInt8) : Option (List Char) :=
    if bs.all (·.toNat < 128) then some (bs.map fun b => Char.ofNat b.toNat) else none

/-- Settings with given values, of which those down to a depth can be shown. -/
def Settings.make (root : Path) (values : List (Key × Value)) (depth : Nat) :
    Except Fault Settings := do
  let onError ← readPolicy depth (given? values .onError)
  let extension ← readExtension (given? values .extension)
  let debounce ← readDelay (given? values .debounce)
  return {
    root, onError, extension, debounce
    components := (given? values .components).getD (.text "components")
    output := (given? values .output).getD (.text "compiled.js")
    selfRenderTag := (given? values .selfRenderTag).getD (.text "This") }

def Settings.value (s : Settings) : Key → Value
  | .components => s.components
  | .output => s.output
  | .extension => .text s.extension
  | .selfRenderTag => s.selfRenderTag
  | .debounce => .float s.debounce
  | .onError => .text s.onError.name

def Settings.componentsPath (s : Settings) : Except Fault Path :=
  match s.components with
  | .text name => .ok (s.root.join name).normal
  | _ => .error .wrongType

def Settings.outputPath (s : Settings) : Except Fault Path :=
  match s.componentsPath, s.output with
  | .error e, _ => .error e
  | .ok directory, .text name => .ok (directory.join name)
  | .ok _, _ => .error .wrongType

def Settings.selfTag (s : Settings) : Option (List Char) :=
  match s.selfRenderTag with
  | .text name => some name.toList
  | _ => none

end ElementBundle.Project
