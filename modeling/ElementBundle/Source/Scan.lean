import ElementBundle.Source.Token

/-!
# Scanning a source

A scan cuts a whole source into tokens. A markup block without an end is the only way to fail, and
the failure names the line at which the open element or expression starts.
-/

namespace ElementBundle.Source

open ElementBundle.Text ElementBundle.Markup

/-- The tokens of a source and what the scanner was inside of at its end. -/
structure Scan where
  tokens : List Token
  state : ScanState
  deriving DecidableEq, Repr

/-- Markup that is not closed: the line at which it opens, and its element unless it is an
expression that stays open. -/
structure UnclosedMarkup where
  line : Nat
  element : Option (List Char)
  deriving DecidableEq, Repr

/-- A scan that failed, and what the scanner was inside of. -/
structure ScanFault where
  error : UnclosedMarkup
  state : ScanState
  deriving DecidableEq, Repr

def lineAt (source : List Char) (offset : Nat) : Nat :=
  newlines (source.take offset) + 1

/-- Names the line and the element of a block without an end. The block is the given text, which
starts on the given line. -/
def locateFault (fault : BlockFault) (line : Nat) (block : List Char) : ScanFault :=
  let error : UnclosedMarkup :=
    match fault.cause with
    | .element => ⟨line, (Tag.read? block).map (·.1.name)⟩
    | .attribute => ⟨line, none⟩
    | .expression source => ⟨line + (newlines block - newlines source), none⟩
  ⟨error, fault.state⟩

/-- Scans a text that starts on a given line. The mode is the one in which the last token left the
scanner. -/
def scanFrom (markup : Bool) (line : Nat) (mode : Mode) : List Char → Except ScanFault Scan
  | [] => .ok ⟨[], { mode }⟩
  | c :: s =>
    match _h : readToken markup c s with
    | .error fault => .error (locateFault fault line (c :: s))
    | .ok r =>
      (scanFrom markup (line + newlines r.token.text) r.mode r.rest).map fun scan =>
        { scan with tokens := r.token :: scan.tokens }
termination_by s => s.length
decreasing_by exact readToken_rest_lt _h

def scan (source : List Char) (markup : Bool := true) : Except ScanFault Scan :=
  scanFrom markup 1 .code source

structure Placed where
  token : Token
  offset : Nat
  line : Nat
  deriving DecidableEq, Repr

def Placed.stop (p : Placed) : Nat :=
  p.offset + p.token.text.length

def placeFrom (offset line : Nat) : List Token → List Placed
  | [] => []
  | t :: ts => ⟨t, offset, line⟩ :: placeFrom (offset + t.text.length) (line + newlines t.text) ts

def place (tokens : List Token) : List Placed :=
  placeFrom 0 1 tokens

def markupBlocks (tokens : List Token) : Nat :=
  tokens.countP fun
    | .markup .. => true
    | _ => false

end ElementBundle.Source
