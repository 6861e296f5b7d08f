import ElementBundle.Component.Error
import ElementBundle.Source.Scan

/-!
# The body of a component

The component is the first class that is declared in code. Its body ends where the braces in code
balance again; braces in comments and strings do not count.
-/

namespace ElementBundle.Component

open ElementBundle.Text ElementBundle.Source

def enumerateFrom (offset : Nat) : List Char → List (Nat × Char)
  | [] => []
  | c :: s => (offset, c) :: enumerateFrom (offset + 1) s

def plainTokens (source : List Char) : List Placed :=
  match scan source false with
  | .ok r => place r.tokens
  | .error _ => []

def runsOf (tokens : List Placed) : List (Nat × List Char) :=
  tokens.filterMap fun
    | ⟨.code text, offset, _⟩ => some (offset, text)
    | _ => none

def charsOf (runs : List (Nat × List Char)) : List (Nat × Char) :=
  runs.flatMap fun (offset, text) => enumerateFrom offset text

def codeRuns (source : List Char) : List (Nat × List Char) :=
  runsOf (plainTokens source)

def codeChars (source : List Char) : List (Nat × Char) :=
  charsOf (codeRuns source)

/-- Reads the keyword of a class and the name after it: the name and the rest. -/
def readClass? (s : List Char) : Option (List Char × List Char) :=
  match dropLeading? ['c', 'l', 'a', 's', 's'] s with
  | some (b :: s) =>
    if isBlank b then
      match s.dropWhile isBlank with
      | c :: s =>
        if isIdentStart c then some (c :: s.takeWhile isIdentRest, s.dropWhile isIdentRest) else none
      | [] => none
    else none
  | _ => none

/-- The offset of the first class in a text, whose first character follows the given one. -/
def findClass? (before : Option Char) : List Char → Option Nat
  | [] => none
  | c :: s =>
    if atBoundary before && (readClass? (c :: s)).isSome then some 0
    else (findClass? (some c) s).map (· + 1)

def firstClass? (runs : List (Nat × List Char)) : Option Nat :=
  runs.findSome? fun (offset, text) => (findClass? none text).map (offset + ·)

def start? (source : List Char) : Option Nat :=
  firstClass? (codeRuns source)

/-- The offset just after the brace that brings the depth back to zero. -/
def balance? (depth : Int) : List (Nat × Char) → Option Nat
  | [] => none
  | (i, c) :: s =>
    if c = '{' then balance? (depth + 1) s
    else if c = '}' then if depth = 1 then some (i + 1) else balance? (depth - 1) s
    else balance? depth s

/-- The offset just after a body that starts at an offset, which may lie outside the source. -/
def bodyEnd? (chars : List (Nat × Char)) (start : Int) : Option Nat :=
  balance? 0 (chars.filter fun (i, _) => start ≤ i)

def bodyStop (source : List Char) (start : Int) : Except Error Nat :=
  match bodyEnd? (codeChars source) start with
  | some stop => .ok stop
  | none => .error (.unclosedBody (lineAt source start.toNat))

structure Span where
  start : Nat
  stop : Nat
  deriving DecidableEq, Repr

def Span.slice (span : Span) (source : List Char) : List Char :=
  (source.take span.stop).drop span.start

/-- The text between two offsets, of which a negative first one counts from the end. -/
def sliceFrom (source : List Char) (start : Int) (stop : Nat) : List Char :=
  let start := if start < 0 then (start + source.length).toNat else start.toNat
  (source.take stop).drop start

def locate (source : List Char) : Except Error Span :=
  match start? source with
  | none => .error .noComponent
  | some start => (bodyStop source start).map fun stop => ⟨start, stop⟩

end ElementBundle.Component
