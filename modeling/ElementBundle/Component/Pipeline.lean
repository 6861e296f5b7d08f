import ElementBundle.Component.Compile
import ElementBundle.Source.Lexer

/-!
# The pipeline of a compiler

One pipeline compiles file after file. It has a lexer for the sources, and its extractor has another
one for the scripts; both keep their registers from file to file, also after a file that failed.
-/

namespace ElementBundle.Component

open ElementBundle.Source ElementBundle.Markup

/-- Finds the body of the component in a script. -/
structure Extractor where
  lexer : Lexer := {}
  deriving DecidableEq, Repr

def Extractor.codeRuns (x : Extractor) (script : List Char) :
    Except Error (List (Nat × List Char)) × Extractor :=
  match x.lexer.tokenize script false with
  | (.error e, lexer) => (.error (.unclosedMarkup e.line e.element), { x with lexer })
  | (.ok tokens, lexer) => (.ok (runsOf tokens), { x with lexer })

def Extractor.start (x : Extractor) (script : List Char) : Except Error Nat × Extractor :=
  match x.codeRuns script with
  | (.error e, x) => (.error e, x)
  | (.ok runs, x) =>
    match firstClass? runs with
    | none => (.error .noComponent, x)
    | some start => (.ok start, x)

/-- The offset just after the body that starts at an offset. A body without an end is named by the
line that the lexer gives for its start. -/
def Extractor.stop (x : Extractor) (script : List Char) (start : Int) :
    Except Error Nat × Extractor :=
  match x.codeRuns script with
  | (.error e, x) => (.error e, x)
  | (.ok runs, x) =>
    match bodyEnd? (charsOf runs) start with
    | none => (.error (.unclosedBody (x.lexer.lineAt start.toNat)), x)
    | some stop => (.ok stop, x)

def Extractor.locate (x : Extractor) (script : List Char) : Except Error Span × Extractor :=
  match x.start script with
  | (.error e, x) => (.error e, x)
  | (.ok start, x) =>
    match x.stop script start with
    | (.error e, x) => (.error e, x)
    | (.ok stop, x) => (.ok ⟨start, stop⟩, x)

structure Pipeline where
  lexer : Lexer := {}
  extractor : Extractor := {}
  deriving DecidableEq, Repr

def Pipeline.compile (p : Pipeline) (renderer : Renderer) (source : List Char)
    (tag : Option (List Char)) : Except Failure Compiled × Pipeline :=
  match p.lexer.tokenize source with
  | (.error e, lexer) =>
    (.error ⟨.render, .unclosedMarkup e.line e.element⟩, { p with lexer })
  | (.ok placed, lexer) =>
    let tokens := placed.map (·.token)
    let script := renderer.tokens tokens
    match p.extractor.locate script with
    | (.error e, extractor) => (.error ⟨.extract, e⟩, { p with lexer, extractor })
    | (.ok span, extractor) => (assemble tokens script span tag, { p with lexer, extractor })

def Pipeline.run (p : Pipeline) (renderer : Renderer) (file : Option String) (source : List Char)
    (tag : Option (List Char)) : Course × Pipeline :=
  let (outcome, p) := p.compile renderer source tag
  (courseOf file outcome, p)

end ElementBundle.Component
