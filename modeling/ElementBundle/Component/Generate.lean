import ElementBundle.Component.Directive
import ElementBundle.Text.Quoted

/-!
# Generated classes

The class of a component gets a base class and, in place of its directive, a constructor, unless it
has its own. Before its last brace stand a list of required attributes and a pair of accessors for
each attribute. After it the element is registered.
-/

namespace ElementBundle.Component

open ElementBundle.Text

def baseClass : List Char := "ComposcriptComponent".toList

def defaultConstructor : List Char := "constructor(attr) \x7b super(attr); \x7d".toList

def member (signature statement : List Char) : List Char :=
  '\t' :: signature ++ " \x7b\n\t\t".toList ++ statement ++ "\n\t\x7d".toList

def Attribute.getter (a : Attribute) : List Char :=
  match a.kind with
  | .plain _ => "return this.getAttribute('".toList ++ a.name ++ "');".toList
  | .boolean _ => "return this.hasAttribute('".toList ++ a.name ++ "');".toList
  | .classToggle => "return this.classList.contains('".toList ++ a.name ++ "');".toList

def Attribute.setter (a : Attribute) : List Char :=
  match a.kind with
  | .plain _ => "this.setAttribute('".toList ++ a.name ++ "', val);".toList
  | .boolean _ => "this.toggleAttribute('".toList ++ a.name ++ "', val);".toList
  | .classToggle => "this.classList.toggle('".toList ++ a.name ++ "', val);".toList

def Attribute.accessors (a : Attribute) : List (List Char) :=
  [member ("get ".toList ++ a.identifier ++ "()".toList) a.getter,
    member ("set ".toList ++ a.identifier ++ "(val)".toList) a.setter]

def Descriptor.members (d : Descriptor) : List (List Char) :=
  member "get requiredAttributes()".toList ("return ".toList ++ literalList d.required ++ [';']) ::
    d.attributes.flatMap Attribute.accessors

def Descriptor.membersText (d : Descriptor) : List Char :=
  '\n' :: ['\n', '\n'].intercalate d.members ++ ['\n']

/-- Reads a class name after at least one blank, of as many blanks as possible: the text read and the
rest. The name must not go on. -/
def readNamed? (name : List Char) : List Char → Option (List Char × List Char)
  | [] => none
  | c :: s =>
    if isBlank c then
      match readNamed? name s with
      | some (text, rest) => some (c :: text, rest)
      | none =>
        match dropLeading? name s with
        | some rest => if rest.head?.any isIdentRest then none else some (c :: name, rest)
        | none => none
    else none

/-- Puts a text after the first declaration of a class of the given name. -/
def insertAfterClass (name insertion : List Char) (before : Option Char) : List Char → List Char
  | [] => []
  | c :: s =>
    let found :=
      if atBoundary before then
        (dropLeading? ['c', 'l', 'a', 's', 's'] (c :: s)).bind (readNamed? name)
      else none
    match found with
    | some (text, rest) => ['c', 'l', 'a', 's', 's'] ++ text ++ insertion ++ rest
    | none => c :: insertAfterClass name insertion (some c) s

/-- The generated unit of a component: its class and its registration. -/
def generate (d : Descriptor) (body : List Char) (base : List Char := baseClass) : List Char :=
  let code := if d.hasBaseClass then body
    else insertAfterClass d.className (" extends ".toList ++ base) none body
  let code := replaceFirst d.directive (if d.hasConstructor then [] else defaultConstructor) code
  (trimEnd code).dropLast ++ d.membersText ++ "\x7d\n\ncustomElements.define('".toList ++ d.tag ++
    "', ".toList ++ d.className ++ ");".toList

end ElementBundle.Component
