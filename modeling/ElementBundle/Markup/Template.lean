import ElementBundle.Source.Scan

/-!
# Markup as template literals

A markup block becomes an expression of the script language around a template literal. Literal text
is escaped so that the literal spells it, expressions become substitutions, and comments become
comments of the markup language. A block whose outermost element is the self tag assigns its content;
any other block is passed to the helper function.
-/

namespace ElementBundle.Markup

open ElementBundle.Source

/-- Escapes a text so that a template literal spells it: backslashes, backticks, and a dollar sign
before a brace. -/
def escapeTemplate : List Char → List Char
  | [] => []
  | '\\' :: s => '\\' :: '\\' :: escapeTemplate s
  | '`' :: s => '\\' :: '`' :: escapeTemplate s
  | '$' :: '{' :: s => '\\' :: '$' :: '{' :: escapeTemplate s
  | c :: s => c :: escapeTemplate s

def Part.render : Part → List Char
  | .text s => escapeTemplate s
  | .expression s => '$' :: '{' :: s ++ ['}']
  | .comment s => ['<', '!', '-', '-'] ++ s ++ ['-', '-', '>']

def renderParts (parts : List Part) : List Char :=
  parts.flatMap Part.render

/-- How blocks are written: the name of the element that stands for the component itself, if any, and
the name of the function that makes an element. -/
structure Renderer where
  selfTag : Option (List Char) := some "This".toList
  helper : List Char := "renderComposcriptHTML".toList

def Renderer.block (r : Renderer) (b : Block) : List Char :=
  if r.selfTag = some b.name then "this.innerHTML = `".toList ++ renderParts b.content ++ ['`']
  else r.helper ++ ['(', '`'] ++ renderParts b.parts ++ ['`', ')']

/-- A token as script: only markup changes. -/
def Renderer.token (r : Renderer) : Token → List Char
  | .markup _ b => r.block b
  | t => t.text

def Renderer.tokens (r : Renderer) (ts : List Token) : List Char :=
  ts.flatMap r.token

end ElementBundle.Markup
