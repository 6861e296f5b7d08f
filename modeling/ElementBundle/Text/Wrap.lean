import ElementBundle.Text.Blank
import ElementBundle.Text.Cells
import ElementBundle.Text.Lines

/-!
# Wrapping texts

A text is broken into lines of a number of columns. A break stands between words; the blanks after a
word belong to it. A word that is longer than a line starts a line of its own, and is then either cut
into lines or left for a later cut with an ellipsis.
-/

namespace ElementBundle.Text

/-- The word at the front of a text, with the blanks before and after it, and the rest. -/
def takeWord (s : List Char) : List Char × List Char :=
  let lead := s.takeWhile isBlank
  let s := s.dropWhile isBlank
  let word := s.takeWhile (!isBlank ·)
  let s := s.dropWhile (!isBlank ·)
  (lead ++ word ++ s.takeWhile isBlank, s.dropWhile isBlank)

/-- The words of a text, each with the blanks around it; blanks alone make no word. The fuel bounds
the number of words. -/
def chunksAux : Nat → List Char → List (List Char)
  | 0, _ => []
  | fuel + 1, s =>
    if s.all isBlank then []
    else
      let (word, rest) := takeWord s
      word :: chunksAux fuel rest

def chunks (s : List Char) : List (List Char) :=
  chunksAux s.length s

/-- Puts clusters on lines of at most a number of columns. `line` is the line that is not closed yet,
and `used` counts its columns. -/
def chopClusters (width : Nat) (line : List Char) (used : Nat) : List Cluster → List (List Char)
  | [] => [line]
  | g :: more =>
    if width < used + g.width then line :: chopClusters width g.text g.width more
    else chopClusters width (line ++ g.text) (used + g.width) more

def chop (width : Nat) (s : List Char) : List (List Char) :=
  chopClusters width [] 0 (clusters s)

/-- Where the breaker stands: finished lines in reverse, the current line, and the columns that the
next word takes into account. -/
structure Breaker where
  finished : List (List Char) := []
  line : List Char := []
  used : Nat := 0

/-- Starts a new line, unless nothing stands before it. -/
def Breaker.break (b : Breaker) : Breaker :=
  if b.finished.isEmpty && b.line.isEmpty then b
  else { b with finished := b.line :: b.finished, line := [] }

def Breaker.fold (b : Breaker) : List (List Char) → Breaker
  | [] => b
  | piece :: more =>
    let b := b.break
    Breaker.fold { b with line := piece, used := cells piece } more

def Breaker.add (width : Nat) (folds : Bool) (b : Breaker) (word : List Char) : Breaker :=
  let length := cells (trimEnd word)
  if length ≤ width - b.used then { b with line := b.line ++ word, used := b.used + cells word }
  else if width < length then
    if folds then b.fold (chop width word)
    else
      let b := b.break
      { b with line := word, used := cells word }
  else if b.used = 0 then { b with line := b.line ++ word }
  else
    let b := b.break
    { b with line := word, used := cells word }

/-- Removes blanks from the end that stand beyond a number of characters. -/
def trimBeyond (width : Nat) (s : List Char) : List Char :=
  let blanks := s.length - (trimEnd s).length
  s.take (s.length - min blanks (s.length - width))

def wrapLine (width : Nat) (folds : Bool) (s : List Char) : List (List Char) :=
  let words := chunks s
  if words.isEmpty then [trimBeyond width s]
  else
    let b := words.foldl (Breaker.add width folds) {}
    ((b.line :: b.finished).reverse).map (trimBeyond width)

def isSuppressed (c : Char) : Bool :=
  c == '\x07' || c == '\x08' || c == '\x0b' || c == '\x0c' || c == '\r'

def wrap (width : Nat) (s : List Char) : List (List Char) :=
  (splitNewlines (s.filter (!isSuppressed ·))).flatMap fun line =>
    wrapLine width true (expandTabs 8 0 line)

/-- Cuts a text to a number of columns and marks the cut by an ellipsis. -/
def ellipsize (width : Nat) (s : List Char) : List Char :=
  if cells s ≤ width then s else padEnd (width - 1) (crop (width - 1) s) ++ ['…']

end ElementBundle.Text
