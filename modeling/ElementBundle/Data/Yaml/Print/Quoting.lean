import ElementBundle.Data.Yaml.Content

/-!
# How texts are written

A scalar is written plain if it can be read back, else in single quotes, and in double quotes if it
has characters that need an escape. A block scalar stays one where a block can stand.
-/

namespace ElementBundle.Data.Yaml

def isTextBreak (c : Char) : Bool :=
  c == '\n' || c == '\u0085' || c == '\u2028' || c == '\u2029'

def isSeparator (c : Char) : Bool :=
  c == '\x00' || c == ' ' || c == '\t' || isBreak c

def isWritable (c : Char) : Bool :=
  let n := c.toNat
  n == 0xA || (0x20 ≤ n && n ≤ 0x7E) || n == 0x85 || (0xA0 ≤ n && n ≤ 0xD7FF) ||
    (0xE000 ≤ n && n ≤ 0xFFFD && n != 0xFEFF) || 0x10000 ≤ n

def endsWord : List Char → Bool
  | [] => true
  | c :: _ => isSeparator c

/-- Whether a text has an indicator at its front that a plain scalar must not have. -/
def startsIndicator (old flow : Bool) : List Char → Bool
  | [] => false
  | c :: rest =>
    "#,[]\x7b\x7d&*!|>'\"%@`".toList.contains c || (c == '-' && endsWord rest) ||
      ((c == '?' || c == ':') && if flow then old || rest.isEmpty else endsWord rest)

/-- Whether a text has an indicator inside that a plain scalar must not have. `spaced` tells whether
white space stands in front. -/
def holdsIndicator (old flow spaced : Bool) : List Char → Bool
  | [] => false
  | c :: rest =>
    (flow && (isFlowMark c || c == ':' || (c == '?' && old))) || (c == ':' && endsWord rest) ||
      (c == '#' && spaced) || holdsIndicator old flow (isSeparator c) rest

/-- Whether a text has an indicator that a plain scalar must not have. -/
def hasIndicator (old flow : Bool) (s : List Char) : Bool :=
  startMark.isPrefixOf s || endMark.isPrefixOf s || startsIndicator old flow s ||
    match s with
    | [] => false
    | c :: rest => holdsIndicator old flow (isSeparator c) rest

/-- Whether a character of one class stands in front of one of another. -/
def hasPair (p q : Char → Bool) : List Char → Bool
  | c :: d :: rest => (p c && q d) || hasPair p q (d :: rest)
  | _ => false

structure Traits where
  empty : Bool
  /-- Whether it has line breaks. -/
  broken : Bool
  /-- Whether it can be plain in brackets. -/
  flowPlain : Bool
  /-- Whether it can be plain in a block. -/
  blockPlain : Bool
  /-- Whether it can stand in single quotes. -/
  single : Bool
  /-- Whether it can be a block scalar. -/
  block : Bool
  deriving DecidableEq, Repr

/-- The traits of a text. In a folded text the marks of joined lines are no characters. -/
def Traits.of (old folded : Bool) (s : List Char) : Traits :=
  if s.isEmpty then
    { empty := true, broken := false, flowPlain := false, blockPlain := true, single := true
      block := false }
  else
    let broken := s.any isTextBreak
    let special := s.any fun c => !isWritable c && !(folded && c == foldMark)
    let isSpace (c : Char) := c == ' '
    let edge (c : Option Char) := c.any fun c => isSpace c || isTextBreak c
    let loose := hasPair isTextBreak isSpace s || hasPair isSpace isTextBreak s
    let plain := !edge s.head? && !edge s.getLast? && !loose && !special && !broken
    { empty := false
      broken
      flowPlain := plain && !hasIndicator old true s
      blockPlain := plain && !hasIndicator old false s
      single := !loose && !special
      block := !special && s.getLast? != some ' ' }

structure Spot where
  /-- Whether brackets are open. -/
  flow : Bool := false
  /-- Whether it is a key on one line with its value. -/
  key : Bool := false
  /-- Whether it is a member of a set. -/
  member : Bool := false
  deriving DecidableEq, Repr

/-- Which styles say the type of a scalar without its tag. -/
structure Implied where
  plain : Bool
  quoted : Bool
  /-- Whether YAML itself defines the tag. -/
  core : Bool
  deriving DecidableEq, Repr

/-- What a text says about its type. A tag that is written with a handle is always written. -/
def Implied.of (version : Version) (label : Label) (text : List Char) : Implied :=
  if label.written.any (·.handle.isSome) then ⟨false, false, false⟩
  else
    ⟨label.tag == (resolve version text).tag, label.tag == ScalarType.text.tag,
      coreTag.isPrefixOf label.tag⟩

def chooseStyle (old : Bool) (spot : Spot) (implied : Implied) (label : Label) (style : Style)
    (text : List Char) : Style :=
  let t := Traits.of old (style = .folded && !spot.member) text
  let block := !spot.member && (style = .literal || style = .folded)
  let plain := (style = .plain || spot.member) && (implied.plain || !implied.core)
  let fits := !(spot.key && (t.empty || t.broken)) && if spot.flow then t.flowPlain else t.blockPlain
  if text.isEmpty && label.written.any (·.handle == some ['!', '!']) then .plain
  else if style = .double && !spot.member then .double
  else if plain && (fits || spot.member) then .plain
  else if block && !spot.flow && !spot.key && t.block then style
  else if style = .plain && !spot.member && (text.contains '\'' || text.contains '\n') then .double
  else if t.single && !(spot.key && t.broken) then .single
  else .double

end ElementBundle.Data.Yaml
