import ElementBundle.Text.Blank
import ElementBundle.Text.Upper

/-!
# Names of components

The tag of a component has at least two words with hyphens between them; its class is named by the
same words, each with a capital. A new component starts from a short text that compiles as it is.
-/

namespace ElementBundle.Component

open ElementBundle.Text

def capitalized : List Char → List Char
  | [] => []
  | c :: s => upper c ++ s

def className (tag : List Char) : List Char :=
  (splitWhere (· == '-') tag).flatMap capitalized

def isTagWord (c : Char) : Bool :=
  c.isLower || c.isDigit

/-- Words of lower-case letters and digits, with one hyphen before each but the first, before which it
may be missing. -/
def isTagRest : Bool → List Char → Bool
  | afterHyphen, [] => !afterHyphen
  | afterHyphen, c :: s =>
    if c = '-' then !afterHyphen && isTagRest true s else isTagWord c && isTagRest false s

/-- Whether a text is a word of letters, a hyphen and at least one more word. -/
def isKebab (s : List Char) : Bool :=
  !(s.takeWhile Char.isLower).isEmpty &&
    match s.dropWhile Char.isLower with
    | '-' :: '-' :: rest => isTagRest true rest
    | '-' :: rest => isTagRest true rest
    | _ => false

/-- Whether a text may be the tag of a new component. A line feed at its end is let through. -/
def isTag (s : List Char) : Bool :=
  isKebab s || (s.getLast? == some '\n' && isKebab s.dropLast)

def scaffold (tag : List Char) : List Char :=
  "class ".toList ++ className tag ++ " \x7b\n\t// <".toList ++ tag ++
    " />\n\n\tcreated() \x7b\n\t\t<This></This>\n\t\x7d\n\x7d\n".toList

end ElementBundle.Component
