import ElementBundle.Text.Blank
import ElementBundle.Text.Word

/-!
# Attributes

A directive declares attributes by words. The shape of a word gives the kind: `.name` toggles a
class, `name?` is present or absent, `name!` has to be given, and any other word is a plain one.
-/

namespace ElementBundle.Component

open ElementBundle.Text

/-- How an attribute is kept on an element. A class toggle can never be required. -/
inductive AttributeKind where
  | plain (required : Bool)
  | boolean (required : Bool)
  | classToggle
  deriving DecidableEq, Repr

structure Attribute where
  name : List Char
  kind : AttributeKind
  deriving DecidableEq, Repr

def Attribute.required (a : Attribute) : Bool :=
  match a.kind with
  | .plain required | .boolean required => required
  | .classToggle => false

def Attribute.identifier (a : Attribute) : List Char :=
  a.name.map fun c => if c = '-' then '_' else c

/-- The backing of an attribute, without saying whether it is required. -/
inductive Backing where
  | attribute
  | presence
  | classList
  deriving DecidableEq, Repr

/-- An attribute that cannot be: a class toggle that has to be given. -/
structure RequiredToggle where
  name : List Char
  deriving DecidableEq, Repr

def RequiredToggle.message (r : RequiredToggle) : String :=
  "Class toggle '" ++ String.ofList r.name ++ "' cannot be required"

def Attribute.make (name : List Char) (backing : Backing) (required : Bool) :
    Except RequiredToggle Attribute :=
  match backing with
  | .attribute => .ok ⟨name, .plain required⟩
  | .presence => .ok ⟨name, .boolean required⟩
  | .classList => if required then .error ⟨name⟩ else .ok ⟨name, .classToggle⟩

inductive Remark where
  /-- A word names nothing once its marks are removed. -/
  | emptyName (word : List Char)
  /-- A word gives an accessor whose name is no identifier. -/
  | badAccessor (word identifier : List Char)
  /-- A name is declared a second time. -/
  | duplicate (name : List Char)
  deriving DecidableEq, Repr

def Remark.message : Remark → String
  | .emptyName word => "Ignoring empty attribute token '" ++ String.ofList word ++ "'"
  | .badAccessor word identifier =>
    "Attribute '" ++ String.ofList word ++ "' gives an invalid accessor name '" ++
      String.ofList identifier ++ "'"
  | .duplicate name => "Duplicate attribute '" ++ String.ofList name ++ "' ignored"

/-- Whether a text is an identifier. A line feed at its end is let through. -/
def isIdentifier (s : List Char) : Bool :=
  match s with
  | [] => false
  | c :: r =>
    isIdentStart c && (r.all isIdentRest || (r.getLast? == some '\n' && r.dropLast.all isIdentRest))

/-- The name, the backing and whether it has to be given, as a word without blanks around it spells
them. -/
def spelled (word : List Char) : List Char × Backing × Bool :=
  match word with
  | '.' :: name => (dropEndWhile (fun c => c == '!' || c == '?') name, .classList, false)
  | word =>
    if word.getLast? = some '?' then (word.dropLast, .presence, false)
    else if word.getLast? = some '!' then (word.dropLast, .attribute, true)
    else (word, .attribute, false)

def wordShape (word : List Char) : Attribute :=
  match spelled word with
  | (name, .attribute, required) => ⟨name, .plain required⟩
  | (name, .presence, required) => ⟨name, .boolean required⟩
  | (name, .classList, _) => ⟨name, .classToggle⟩

def classify (word : List Char) : Option Attribute × List Remark :=
  let word := trim word
  if word.isEmpty then (none, [])
  else
    let a := wordShape word
    if a.name.isEmpty then (none, [.emptyName word])
    else (some a, if isIdentifier a.identifier then [] else [.badAccessor word a.identifier])

/-- The attributes that words declare after some names are taken, and remarks in order. The first
declaration of a name counts. -/
def declareFrom (taken : List (List Char)) : List (List Char) → List Attribute × List Remark
  | [] => ([], [])
  | word :: rest =>
    match classify word with
    | (none, remarks) =>
      let (as, more) := declareFrom taken rest
      (as, remarks ++ more)
    | (some a, remarks) =>
      if taken.contains a.name then
        let (as, more) := declareFrom taken rest
        (as, remarks ++ .duplicate a.name :: more)
      else
        let (as, more) := declareFrom (a.name :: taken) rest
        (a :: as, remarks ++ more)

def declare (specs : List Char) : List Attribute × List Remark :=
  declareFrom [] (words specs)

end ElementBundle.Component
