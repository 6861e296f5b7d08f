import ElementBundle.Component.Attribute
import ElementBundle.Component.Body

/-!
# Directives

A directive is a comment `// <tag-name title! open? .active />` in the body of a component. It
declares the tag and the attributes. Together with what the class header says it describes the
component.
-/

namespace ElementBundle.Component

open ElementBundle.Text

/-- A directive: its tag, the text that declares attributes, and its whole source text. -/
structure Directive where
  tag : List Char
  specs : List Char
  text : List Char
  deriving DecidableEq, Repr

/-- Reads the shortest text in one line after which only blanks stand before the end mark: that text,
and the blanks with the end mark. -/
def readSpecs? : List Char → Option (List Char × List Char)
  | [] => none
  | c :: s =>
    if startsWith ['/', '>'] ((c :: s).dropWhile isBlank) then
      some ([], (c :: s).takeWhile isBlank ++ ['/', '>'])
    else if c = '\n' then none
    else (readSpecs? s).map fun (specs, stop) => (c :: specs, stop)

def readTagName? (tag : Option (List Char)) (s : List Char) : Option (List Char × List Char) :=
  match tag with
  | some tag => (dropLeading? tag s).map (tag, ·)
  | none =>
    match s with
    | c :: s =>
      if c.isAlpha then some (c :: s.takeWhile isNameRest, s.dropWhile isNameRest) else none
    | [] => none

def endsTagName (s : List Char) : Bool :=
  match s with
  | [] => false
  | c :: _ => isBlank c || c == '/'

def readDirective? (tag : Option (List Char)) (s : List Char) : Option Directive :=
  match dropLeading? ['/', '/'] s with
  | none => none
  | some s =>
    let gap := s.takeWhile fun c => c == ' ' || c == '\t'
    match s.dropWhile fun c => c == ' ' || c == '\t' with
    | '<' :: s =>
      match readTagName? tag s with
      | none => none
      | some (name, rest) =>
        if endsTagName rest then
          (readSpecs? rest).map fun (specs, stop) =>
            ⟨name, specs, ['/', '/'] ++ gap ++ '<' :: name ++ specs ++ stop⟩
        else none
    | _ => none

def findDirective? (tag : Option (List Char)) : List Char → Option Directive
  | [] => none
  | c :: s =>
    match readDirective? tag (c :: s) with
    | some d => some d
    | none => findDirective? tag s

/-- The name of the first class of a text and what stands between it and the opening brace. -/
def classHeader? (body : List Char) : Option (List Char × List Char) :=
  match findClass? none body with
  | none => none
  | some offset =>
    match readClass? (body.drop offset) with
    | none => none
    | some (name, rest) => if rest.contains '{' then some (name, rest.takeWhile (· ≠ '{')) else none

/-- Whether a word stands in a text, with no word character before it, such that the text after it
passes a test. -/
def hasWord (word : List Char) (test : List Char → Bool) (before : Option Char) :
    List Char → Bool
  | [] => false
  | c :: s =>
    (atBoundary before && (dropLeading? word (c :: s)).any test) || hasWord word test (some c) s

def hasConstructor (body : List Char) : Bool :=
  hasWord "constructor".toList (fun s => (s.dropWhile isBlank).head? == some '(') none body

def hasBaseClass (heritage : List Char) : Bool :=
  hasWord "extends".toList (fun s => atBoundary s.head?) none heritage

structure Descriptor where
  tag : List Char
  className : List Char
  attributes : List Attribute := []
  directive : List Char := []
  hasConstructor : Bool := false
  hasBaseClass : Bool := false
  deriving DecidableEq, Repr

def Descriptor.required (d : Descriptor) : List (List Char) :=
  (d.attributes.filter Attribute.required).map Attribute.name

/-- Describes a body: its directive declares the given tag, or any if the given one is missing or
empty. Remarks on the attributes come along. -/
def describe (body : List Char) (tag : Option (List Char)) : Except Error (Descriptor × List Remark) :=
  let tag := tag.filter (!·.isEmpty)
  match classHeader? body with
  | none => .error .noComponent
  | some (className, heritage) =>
    match findDirective? tag body with
    | none => .error (.missingDirective (tag.getD "tag-name".toList))
    | some directive =>
      let (attributes, remarks) := declare directive.specs
      .ok ({ tag := directive.tag, className, attributes, directive := directive.text,
             hasConstructor := hasConstructor body, hasBaseClass := hasBaseClass heritage }, remarks)

end ElementBundle.Component
