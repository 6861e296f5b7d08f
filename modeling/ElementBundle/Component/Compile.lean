import ElementBundle.Component.Generate
import ElementBundle.Markup.Template

/-!
# Compiling a component

Compiling goes through three phases: markup becomes script, the body of the component is found, and
its directive is replaced by generated members. What stands around the body stays as it is.
-/

namespace ElementBundle.Component

open ElementBundle.Source ElementBundle.Markup

inductive Phase where
  | render
  | extract
  | generate
  deriving DecidableEq, Repr

def Phase.started : Phase → List Phase
  | .render => [.render]
  | .extract => [.render, .extract]
  | .generate => [.render, .extract, .generate]

/-- A compiled component, with what each phase found. -/
structure Compiled where
  tokens : List Token
  script : List Char
  span : Span
  descriptor : Descriptor
  remarks : List Remark
  output : List Char

structure Failure where
  phase : Phase
  error : Error
  deriving DecidableEq, Repr

/-- Generates the members of the component in a span, whose directive declares the given tag, or
any. -/
def assemble (tokens : List Token) (script : List Char) (span : Span) (tag : Option (List Char)) :
    Except Failure Compiled :=
  let body := span.slice script
  match describe body tag with
  | .error e => .error ⟨.generate, e⟩
  | .ok (descriptor, remarks) =>
    .ok { tokens, script, span, descriptor, remarks
          output := script.take span.start ++ Component.generate descriptor body ++
            script.drop span.stop }

def compile (renderer : Renderer) (source : List Char) (tag : Option (List Char)) :
    Except Failure Compiled :=
  match scan source with
  | .error fault => .error ⟨.render, .unclosedMarkup fault.error.line fault.error.element⟩
  | .ok scanned =>
    let script := renderer.tokens scanned.tokens
    match locate script with
    | .error e => .error ⟨.extract, e⟩
    | .ok span => assemble scanned.tokens script span tag

/-- An error and the file in which it arose, if it has a name. -/
structure Diagnosis where
  error : Error
  file : Option String
  deriving DecidableEq, Repr

/-- The course of a compilation: the phases that were started, in order, and what came of them. -/
structure Course where
  phases : List Phase
  outcome : Except Diagnosis Compiled

def courseOf (file : Option String) : Except Failure Compiled → Course
  | .ok c => ⟨Phase.generate.started, .ok c⟩
  | .error f => ⟨f.phase.started, .error ⟨f.error, file⟩⟩

def compileFile (renderer : Renderer) (file : Option String) (source : List Char)
    (tag : Option (List Char)) : Course :=
  courseOf file (compile renderer source tag)

end ElementBundle.Component
