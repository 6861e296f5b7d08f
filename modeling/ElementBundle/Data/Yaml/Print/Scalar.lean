import ElementBundle.Data.Yaml.Print.Pen
import ElementBundle.Data.Yaml.Print.Quoting
import ElementBundle.Data.Yaml.Token.Quoted

/-!
# Writing scalars

A plain or quoted scalar is broken at a single space behind the longest width. The line breaks of a
text are doubled there, so that folding gives them back. Block scalars keep their lines.
-/

namespace ElementBundle.Data.Yaml

open ElementBundle.Text

/-- The classes of characters that make up a text. -/
inductive Run where
  | word (s : List Char)
  | spaces (s : List Char)
  | breaks (s : List Char)
  | quote
  deriving DecidableEq, Repr

def sameRun (quotes : Bool) (a b : Char) : Bool :=
  let kind (c : Char) := if c == ' ' then 0 else if isTextBreak c then 1 else 2
  kind a == kind b && !(quotes && (a == '\'' || b == '\''))

def runs (quotes : Bool) (s : List Char) : List Run :=
  (s.splitBy (sameRun quotes)).map fun run =>
    match run with
    | [] => .word []
    | c :: _ =>
      if c == ' ' then .spaces run
      else if isTextBreak c then .breaks run
      else if quotes && c == '\'' then .quote
      else .word run

def Pen.breaks (p : Pen) (m : Margin) (s : List Char) : Pen :=
  let p := if s.head? == some '\n' then p.endLine else p
  (s.foldl (fun p c => p.endLine c) p).indentTo m.indent

def Pen.isFull (p : Pen) : Bool :=
  lineWidth < p.column

def Pen.plainRun (p : Pen) (m : Margin) (splits : Bool) : Run → Pen
  | .spaces s =>
    if s.length = 1 && p.isFull && splits then (p.indentTo m.indent).inWord else p.put s
  | .breaks s => (p.breaks m s).inWord
  | .word s =>
    let p := if lineWidth < p.column + s.length && m.indent.any (· < p.column) then
        p.indentTo m.indent
      else p
    p.put s
  | .quote => p.put ['\'']

def Pen.plain (p : Pen) (m : Margin) (splits : Bool) (s : List Char) : Pen :=
  if s.isEmpty then p
  else
    let p := (if p.blank then p else p.put [' ']).inWord
    (runs false s).foldl (fun p run => p.plainRun m splits run) p

/-- Writes a run in single quotes. Spaces at the ends of the text are not broken. -/
def Pen.singleRun (p : Pen) (m : Margin) (splits : Bool) : Run → Pen
  | .spaces s => if s.length = 1 && p.isFull && splits then p.indentTo m.indent else p.put s
  | .breaks s => p.breaks m s
  | .word s => p.put s
  | .quote => p.put ['\'', '\'']

def Pen.singleRuns (m : Margin) (splits : Bool) : Bool → List Run → Pen → Pen
  | _, [], p => p
  | first, run :: more, p =>
    singleRuns m splits false more (p.singleRun m (splits && !first && !more.isEmpty) run)

def Pen.single (p : Pen) (m : Margin) (splits : Bool) (s : List Char) : Pen :=
  (Pen.singleRuns m splits true (runs true s) (p.mark ['\''] true)).mark ['\''] false

def upperHex (digits n : Nat) : List Char :=
  (hex digits n).map Char.toUpper

def needsEscape (c : Char) : Bool :=
  c == '"' || c == '\\' || isTextBreak c || !isWritable c

def escaped (c : Char) : List Char :=
  let n := c.toNat
  match escapes.find? (·.2 == c) with
  | some (mark, _) => ['\\', mark]
  | none =>
    if n ≤ 0xFF then '\\' :: 'x' :: upperHex 2 n
    else if n ≤ 0xFFFF then '\\' :: 'u' :: upperHex 4 n
    else '\\' :: 'U' :: upperHex 8 n

def slice (s : Array Char) (start stop : Nat) : List Char :=
  (s.toList.take stop).drop start

/-- Whether a break at an offset of a text in double quotes needs a backslash: without one the space
there is folded back, which must be a single one in front of a word without quotes. -/
def breakNeedsMark (s : Array Char) (n : Nat) : Bool :=
  let word := (s.toList.drop n).takeWhile (· != ' ')
  let closed := n + word.length < s.size
  let isSpace (i : Nat) := s[i]? == some ' '
  !(closed && !word.contains '"' && !word.contains '\'' && !isSpace (n + 1) &&
    !(isSpace (n - 1) && isSpace n))

/-- Writes a text in double quotes from an offset on. The characters from `start` to the offset have
not been written yet. -/
def Pen.doubleFrom (m : Margin) (splits : Bool) (s : Array Char) : Nat → Nat → Nat → Pen → Pen
  | 0, _, _, p => p
  | fuel + 1, start, n, p =>
    let c := s[n]?
    let (start, p) :=
      if c.all needsEscape then
        let p := p.put (slice s start n)
        match c with
        | none => (max start n, p)
        | some c => (n + 1, p.put (escaped c))
      else (start, p)
    let breaks := splits && 0 < n && n + 1 < s.size && (c == some ' ' || n ≤ start) &&
      lineWidth + start < p.column + n
    let (start, p) :=
      if breaks then
        let marked := breakNeedsMark s n
        let p := p.put (slice s start n ++ if marked then ['\\'] else [])
        let start := max start n
        let p := (p.indentTo m.indent).inWord
        let atSpace := s[start]? == some ' '
        if marked then (start, if atSpace then p.put ['\\'] else p)
        else (if atSpace then start + 1 else start, p)
      else (start, p)
    if n < s.size then doubleFrom m splits s fuel start (n + 1) p else p

def Pen.double (p : Pen) (m : Margin) (splits : Bool) (s : List Char) : Pen :=
  let s := s.toArray
  (Pen.doubleFrom m splits s (s.size + 1) 0 0 (p.mark ['"'] true)).mark ['"'] false

/-- What the head of a block scalar says about its text: the indentation if the text starts with white
space, and the sign for its end. -/
def blockHints (s : List Char) : List Char × Bool :=
  let indent := if s.head?.any fun c => c == ' ' || isTextBreak c then ['2'] else []
  let end? := s.getLast?
  if s.isEmpty then ([], false)
  else if !end?.any isTextBreak then (indent ++ ['-'], false)
  else if s.length = 1 || (s.dropLast.getLast?).any isTextBreak then (indent ++ ['+'], true)
  else (indent, false)

def Pen.blockHead (p : Pen) (mark : Char) (header : List Char) (s : List Char) : Pen :=
  let (hints, keeps) := blockHints s
  let p := p.mark (mark :: hints ++ header) true
  { p with openEnded := keeps }.endLine

/-- Writes the lines of a literal scalar. `atStart` tells whether a line starts. -/
def Pen.literalLines (m : Margin) : Bool → List Char → Pen → Pen
  | atStart, [], p => if atStart then p else p.endLine
  | atStart, c :: s, p =>
    if isTextBreak c then literalLines m true s (p.endLine c)
    else literalLines m false s ((if atStart then p.indentTo m.indent else p).raw [c])

def Pen.literal (p : Pen) (m : Margin) (header s : List Char) : Pen :=
  Pen.literalLines m true s (p.blockHead '|' header s)

/-- What the writer of a folded scalar has in hand. -/
inductive FoldState where
  | breaks
  | spaces
  | word
  deriving DecidableEq, Repr

/-- Writes a folded scalar from an offset on. The characters from `start` to the offset have not been
written yet; `leading` tells whether the last line started with a space. -/
def Pen.foldedFrom (m : Margin) (s : Array Char) :
    Nat → Bool → FoldState → Nat → Nat → Pen → Pen
  | 0, _, _, _, _, p => p
  | fuel + 1, leading, state, start, n, p =>
    let c := s[n]?
    let isMark := c == some foldMark
    let isSpace := c == some ' '
    let atBreak := c.any isTextBreak
    let run := slice s start n
    let next : FoldState := if atBreak then .breaks else if isSpace then .spaces else .word
    let goOn (leading : Bool) (start n : Nat) (p : Pen) : Pen :=
      if n < s.size then foldedFrom m s fuel leading next start (n + 1) p else p
    match state with
    | .breaks =>
      if atBreak || isMark then goOn leading start n p
      else
        let p := if !leading && c.isSome && !isSpace && s[start]? == some '\n' then p.endLine else p
        let p := run.foldl (fun p c => p.endLine c) p
        goOn isSpace n n (if c.isSome then p.indentTo m.indent else p)
    | .spaces =>
      if isSpace then goOn leading start n p
      else goOn leading n n
        (if run.length = 1 && p.isFull then p.indentTo m.indent else p.put run)
    | .word =>
      if c.isNone then (p.put run).endLine
      else if isMark then goOn leading (n + 2) (n + 2) ((p.put run).endLine.indentTo m.indent)
      else if isSpace || atBreak then goOn leading n n (p.put run)
      else goOn leading start n p

def Pen.folded (p : Pen) (m : Margin) (header s : List Char) : Pen :=
  let t := s.toArray
  Pen.foldedFrom m t (t.size + 1) true .breaks 0 0 (p.blockHead '>' header s)

def Pen.styled (p : Pen) (m : Margin) (splits : Bool) (header : List Char) (style : Style)
    (s : List Char) : Pen :=
  match style with
  | .plain => p.plain m splits s
  | .single => p.single m splits s
  | .double => p.double m splits s
  | .literal => p.literal m header s
  | .folded => p.folded m header s

end ElementBundle.Data.Yaml
