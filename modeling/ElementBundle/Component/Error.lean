/-!
# Why a component does not compile

Each error is a cause; its code and its text follow from it. A message names the file and the line
in front of the text, if they are known.
-/

namespace ElementBundle.Component

inductive Error where
  /-- No directive declares the component's tag. -/
  | missingDirective (tag : List Char)
  /-- There is no class in the code. -/
  | noComponent
  /-- Markup that opens on a line is not closed; its element, unless it is an expression. -/
  | unclosedMarkup (line : Nat) (element : Option (List Char))
  /-- The body of the class that starts on a line is not closed. -/
  | unclosedBody (line : Nat)
  deriving DecidableEq, Repr

def Error.code : Error → String
  | .missingDirective _ => "MISSING_DIRECTIVE"
  | .noComponent => "NO_COMPONENT"
  | .unclosedMarkup .. => "UNBALANCED_MARKUP"
  | .unclosedBody _ => "UNBALANCED_BRACES"

def Error.line? : Error → Option Nat
  | .unclosedMarkup line _ | .unclosedBody line => some line
  | _ => none

def Error.text : Error → String
  | .missingDirective tag =>
    "Attribute map not found, please add \"// <" ++ String.ofList tag ++
      " />\" to the top of the component"
  | .noComponent => "No component class declaration found"
  | .unclosedMarkup _ none => "Markup block opened here is never closed"
  | .unclosedMarkup _ (some element) => "<" ++ String.ofList element ++ "> opened here is never closed"
  | .unclosedBody _ => "Component body is missing its closing brace"

/-- Puts a place in front of a text. An unnamed file has no place, and then the line is not shown. -/
def placed (file : Option String) (line : Option Nat) (text : String) : String :=
  match file with
  | none | some "" => text
  | some file =>
    match line with
    | none => file ++ ": " ++ text
    | some line => file ++ ":" ++ toString line ++ ": " ++ text

def Error.message (e : Error) (file : Option String) : String :=
  placed file e.line? e.text

end ElementBundle.Component
