import ElementBundle.Source.Scan

/-!
# A lexer and its registers

A lexer goes through a source one character at a time. Its registers hold what it is inside of, the
offset at which the present run of characters began, the tokens that are closed, and the offsets of
the line feeds. They outlive the source: a lexer that failed inside of a block is left there.
`Lexer.tokenize` resets them before it starts.
-/

namespace ElementBundle.Source

open ElementBundle.Text ElementBundle.Markup

structure Lexer where
  state : ScanState := {}
  source : List Char := []
  tokens : List Placed := []
  runStart : Nat := 0
  lineFeeds : List Nat := []
  deriving DecidableEq, Repr

/-- The offsets of the line feeds of a text that starts at an offset. -/
def lineFeedsFrom (offset : Nat) : List Char → List Nat
  | [] => []
  | c :: s =>
    if c = '\n' then offset :: lineFeedsFrom (offset + 1) s else lineFeedsFrom (offset + 1) s

def Lexer.lineAt (l : Lexer) (offset : Nat) : Nat :=
  (l.lineFeeds.takeWhile (· < offset)).length + 1

def Lexer.reset (l : Lexer) (source : List Char) : Lexer :=
  { l with state := {}, source, tokens := [], runStart := 0, lineFeeds := lineFeedsFrom 0 source }

def Lexer.enter (l : Lexer) (mode : Mode) : Lexer :=
  { l with state := { l.state with mode } }

/-- Ends the present run at an offset. A run without characters is no token. -/
def Lexer.closeRun (l : Lexer) (kind : List Char → Token) (stop : Nat) : Lexer :=
  { l with
    tokens :=
      if l.runStart < stop then
        l.tokens ++
          [⟨kind ((l.source.take stop).drop l.runStart), l.runStart, l.lineAt l.runStart⟩]
      else l.tokens
    runStart := stop }

def Lexer.takeBlock (l : Lexer) (text : List Char) (block : Block) : Lexer :=
  { l with
    state := { l.state with nesting := none, expressionDepth := 0 }
    tokens := l.tokens ++ [⟨.markup text block, l.runStart, l.lineAt l.runStart⟩]
    runStart := l.runStart + text.length }

/-- Where markup opens that is not closed. The block starts where the present run does. -/
def Lexer.unclosed (l : Lexer) (cause : BlockCause) (block : List Char) : UnclosedMarkup :=
  match cause with
  | .element => ⟨l.lineAt l.runStart, (Tag.read? block).map (·.1.name)⟩
  | .attribute => ⟨l.lineAt l.runStart, none⟩
  | .expression source => ⟨l.lineAt (l.runStart + (block.length - source.length)), none⟩

def runKind : Mode → List Char → Token
  | .code => .code
  | .lineComment => .lineComment
  | .blockComment => .blockComment
  | .string _ => .string

/-- How a lexer goes on: how many characters it passes over, and whether a colon is in front of the
next one. -/
structure Advance where
  skip : Nat := 0
  afterColon : Bool := false
  deriving DecidableEq, Repr

def Lexer.stepComment (l : Lexer) (offset : Nat) (c : Char) (s : List Char) : Advance × Lexer :=
  if l.state.mode = .lineComment then
    if c = '\n' then ({}, (l.closeRun .lineComment offset).enter .code) else ({}, l)
  else if (dropLeading? ['*', '/'] (c :: s)).isSome then
    ({ skip := 1 }, (l.closeRun .blockComment (offset + 2)).enter .code)
  else ({}, l)

def Lexer.stepString (l : Lexer) (delimiter : Char) (offset : Nat) (c : Char) : Advance × Lexer :=
  if c = '\\' then ({ skip := 1 }, l)
  else if c = delimiter then ({}, (l.closeRun .string (offset + 1)).enter .code)
  else ({}, l)

/-- One step through code. A block is read as a whole, and what is read is passed over. -/
def Lexer.stepCode (l : Lexer) (markup afterColon : Bool) (offset : Nat) (c : Char)
    (s : List Char) : Except UnclosedMarkup Advance × Lexer :=
  match opener? markup afterColon c s with
  | some .lineComment => (.ok { skip := 1 }, (l.closeRun .code offset).enter .lineComment)
  | some .blockComment => (.ok { skip := 1 }, (l.closeRun .code offset).enter .blockComment)
  | some .string => (.ok {}, (l.closeRun .code offset).enter (.string c))
  | some (.markup t rest) =>
    let l := l.closeRun .code offset
    match readBlock t rest with
    | .error fault => (.error (l.unclosed fault.cause (c :: s)), { l with state := fault.state })
    | .ok r => (.ok { skip := r.source.length - 1 }, l.takeBlock r.source r.block)
  | none => (.ok { afterColon := c == ':' }, l)

def Lexer.step (l : Lexer) (markup afterColon : Bool) (offset : Nat) (c : Char) (s : List Char) :
    Except UnclosedMarkup Advance × Lexer :=
  match l.state.mode with
  | .lineComment | .blockComment => (.ok (l.stepComment offset c s).1, (l.stepComment offset c s).2)
  | .string q => (.ok (l.stepString q offset c).1, (l.stepString q offset c).2)
  | .code => l.stepCode markup afterColon offset c s

/-- Goes through the text at an offset of the source. What is open at the end of the source becomes
the last token. -/
def Lexer.run (markup : Bool) (l : Lexer) (next : Advance) (offset : Nat) :
    List Char → Except UnclosedMarkup Unit × Lexer
  | [] => (.ok (), l.closeRun (runKind l.state.mode) l.source.length)
  | c :: s =>
    match next.skip with
    | n + 1 => run markup l { next with skip := n } (offset + 1) s
    | 0 =>
      match l.step markup next.afterColon offset c s with
      | (.error e, l) => (.error e, l)
      | (.ok next, l) => run markup l next (offset + 1) s

def Lexer.tokenize (l : Lexer) (source : List Char) (markup : Bool := true) :
    Except UnclosedMarkup (List Placed) × Lexer :=
  match (l.reset source).run markup {} 0 source with
  | (.ok (), l) => (.ok l.tokens, l)
  | (.error e, l) => (.error e, l)

end ElementBundle.Source
