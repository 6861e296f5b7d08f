import ElementBundle.Data.Yaml.Token.Block
import ElementBundle.Data.Yaml.Token.Name
import ElementBundle.Data.Yaml.Token.Quoted

/-!
# Reading tokens

Where blocks of mappings and sequences start and end follows from indentation. That a scalar is the
key of a mapping is known only at the colon behind it; the tokens that announce it are then put in
front of the scalar. Comments stand between the tokens as items of their own.
-/

namespace ElementBundle.Data.Yaml

open ElementBundle.Text

inductive Item where
  | token (t : Token)
  | remark (r : Remark)
  deriving DecidableEq, Repr

structure KeyStart where
  /-- How many items were before it. -/
  items : Nat
  /-- Whether there has to be a colon. -/
  required : Bool
  place : Cursor
  deriving DecidableEq, Repr

/-- Where the lexer stands. `keys` has the start of a possible key for each open bracket, the
innermost first, and for the block. `announced` tells which tokens go in front of an item. -/
structure Lexer where
  place : Cursor
  /-- Whether comments are kept. -/
  keeps : Bool
  version : Version := .usual
  flow : List Char := []
  indent : Int := -1
  indents : List Int := []
  keyAllowed : Bool := true
  keys : List (Option KeyStart) := [none]
  items : Array Item := #[]
  announced : List (Nat × List Token) := []

def Lexer.start (keeps : Bool) (source : List Char) : Lexer :=
  { place := { rest := source }, keeps }

def Lexer.peek (l : Lexer) (n : Nat := 0) : Char :=
  l.place.peek n

def Lexer.push (l : Lexer) (kind : Kind) (stop next : Cursor) (notes : Notes := {}) : Lexer :=
  { l with
    items := l.items.push (.token ⟨kind, l.place.line, stop.line, notes⟩), place := next }

def Lexer.mark (l : Lexer) (kind : Kind) (length : Nat) : Lexer :=
  let next := l.place.forward length
  l.push kind next next

def KeyStart.isStale (k : KeyStart) (c : Cursor) : Bool :=
  k.place.line != c.line || 1024 < c.index - k.place.index

/-- Forgets stale starts of keys. A colon that had to come makes the document malformed. -/
def Lexer.dropStale (l : Lexer) : Except Flaw Lexer := do
  let keys ← l.keys.mapM fun
    | some k =>
      if k.isStale l.place then if k.required then .error .malformed else .ok none
      else .ok (some k)
    | none => .ok none
  return { l with keys }

def Lexer.dropKey (l : Lexer) : Except Flaw Lexer :=
  match l.keys with
  | some k :: keys => if k.required then .error .malformed else .ok { l with keys := none :: keys }
  | _ => .ok l

def Lexer.saveKey (l : Lexer) : Except Flaw Lexer := do
  if l.keyAllowed then
    let required := l.flow.isEmpty && l.indent == (l.place.column : Int)
    let l ← l.dropKey
    return { l with keys := some ⟨l.items.size, required, l.place⟩ :: l.keys.tail }
  else return l

def Lexer.unwind (l : Lexer) (column : Int) : Lexer :=
  if l.flow.isEmpty then go l l.indents else l
where
  go (l : Lexer) : List Int → Lexer
    | [] => l
    | outer :: more =>
      if column < l.indent then go ({ l with indent := outer, indents := more }.mark .blockEnd 0) more
      else l

/-- Starts a block at a column, if it is indented more than the one around it. -/
def Lexer.indentTo (l : Lexer) (column : Nat) : Bool × Lexer :=
  if l.indent < (column : Int) then
    (true, { l with indent := column, indents := l.indent :: l.indents })
  else (false, l)

/-- Starts a block at the present place, where outside of brackets a key must be allowed. -/
def Lexer.startBlock (l : Lexer) (kind : Kind) : Except Flaw Lexer :=
  if l.flow.isEmpty then
    if l.keyAllowed then
      let (starts, l) := l.indentTo l.place.column
      .ok (if starts then l.mark kind 0 else l)
    else .error .malformed
  else .ok l

def Lexer.endBlocks (l : Lexer) : Except Flaw Lexer := do
  let l ← (l.unwind (-1)).dropKey
  return { l with keyAllowed := false }

def Lexer.directive (l : Lexer) : Except Flaw Lexer := do
  let l ← l.endBlocks
  let (kind, next) ← l.place.directive l.keeps l.version
  let l := match kind with
    | .version version => { l with version }
    | _ => l
  return l.push kind l.place next

def Lexer.document (l : Lexer) (kind : Kind) : Except Flaw Lexer := do
  let l ← l.endBlocks
  return l.mark kind 3

def Lexer.openFlow (l : Lexer) (kind : Kind) : Except Flaw Lexer := do
  let l ← l.saveKey
  return { l with keyAllowed := true, flow := l.peek :: l.flow, keys := none :: l.keys }.mark kind 1

def Lexer.closeFlow (l : Lexer) (kind : Kind) : Except Flaw Lexer := do
  let l ← l.dropKey
  let keys := if l.keys.length ≤ 1 then l.keys else l.keys.tail
  return { l with keyAllowed := false, flow := l.flow.tail, keys }.mark kind 1

def Lexer.comma (l : Lexer) : Except Flaw Lexer := do
  let l ← { l with keyAllowed := true }.dropKey
  return l.mark .flowEntry 1

def Lexer.entry (l : Lexer) : Except Flaw Lexer := do
  let l ← l.startBlock .blockSequenceStart
  let l ← { l with keyAllowed := true }.dropKey
  return l.mark .blockEntry 1

def Lexer.explicitKey (l : Lexer) : Except Flaw Lexer := do
  let l ← l.startBlock .blockMappingStart
  let l ← { l with keyAllowed := l.flow.isEmpty }.dropKey
  return l.mark .key 1

/-- Reads the colon of a value. A key that may have started before it is one now. -/
def Lexer.colon (l : Lexer) : Except Flaw Lexer := do
  match l.keys with
  | some k :: keys =>
    let token (kind : Kind) : Token := ⟨kind, k.place.line, k.place.line, {}⟩
    let l := { l with keys := none :: keys }
    let (starts, l) := if l.flow.isEmpty then l.indentTo k.place.column else (false, l)
    let marks := if starts then [token .blockMappingStart, token .key] else [token .key]
    return { l with
      keyAllowed := false, announced := l.announced ++ [(k.items, marks)] }.mark .value 1
  | _ =>
    let l ← l.startBlock .blockMappingStart
    let l ← { l with keyAllowed := l.flow.isEmpty }.dropKey
    return l.mark .value 1

def Lexer.name (l : Lexer) (kind : List Char → Kind) : Except Flaw Lexer := do
  let l ← l.saveKey
  let (name, next) ← (l.place.forward 1).name
  return { l with keyAllowed := false }.push (kind name) next next

def Lexer.tag (l : Lexer) : Except Flaw Lexer := do
  let l ← l.saveKey
  let (tag, next) ← l.place.tag l.keeps l.version
  return { l with keyAllowed := false }.push (.tag tag) next next

def Lexer.block (l : Lexer) (style : Style) : Except Flaw Lexer := do
  let l ← { l with keyAllowed := true }.dropKey
  let b ← (l.place.forward 1).block (style = .folded) l.keeps l.indent
  return l.push (.scalar b.text style b.folds) b.stop b.next b.notes

def Lexer.quoted (l : Lexer) (style : Style) : Except Flaw Lexer := do
  let l ← l.saveKey
  let (text, next) ← l.place.quoted
  return { l with keyAllowed := false }.push (.scalar text style []) next next

def Lexer.plain (l : Lexer) : Except Flaw Lexer := do
  let l ← l.saveKey
  let run := l.place.plain ⟨l.version, !l.flow.isEmpty, l.indent + 1⟩
  let behind := if l.keeps then run.behind? l.place else none
  return { l with keyAllowed := run.spaces.broke }.push (.scalar run.text .plain []) run.stop
    run.spaces.next { behind }

def Lexer.behindColon (l : Lexer) : Bool :=
  match l.items.back? with
  | some (.token t) => t.kind = .value
  | _ => false

/-- Whether a colon here separates a key from its value. In braces it does without a blank, unless
the colon of a value stands in front that has not been used up. -/
def Lexer.atValue (l : Lexer) (unused : Bool) : Bool :=
  let spaced := isEndOrBlank (l.peek 1)
  match l.flow with
  | [] => spaced
  | bracket :: _ =>
    if l.version = .old then true
    else if bracket == '[' || (unused && l.behindColon) then spaced
    else true

def Lexer.token (l : Lexer) (unused : Bool) : Except Flaw Lexer :=
  let c := l.peek
  let outside := l.flow.isEmpty
  let atLine := l.place.column == 0
  if c == '%' && atLine then l.directive
  else if atLine && l.place.atMark startMark then l.document .documentStart
  else if atLine && l.place.atMark endMark then l.document .documentEnd
  else if c == '[' then l.openFlow .flowSequenceStart
  else if c == '{' then l.openFlow .flowMappingStart
  else if c == ']' then l.closeFlow .flowSequenceEnd
  else if c == '}' then l.closeFlow .flowMappingEnd
  else if c == ',' then l.comma
  else if c == '-' && isEndOrBlank (l.peek 1) then l.entry
  else if c == '?' && (!outside || isEndOrBlank (l.peek 1)) then l.explicitKey
  else if c == ':' && l.atValue unused then l.colon
  else if c == '*' then l.name .alias
  else if c == '&' then l.name .anchor
  else if c == '!' then l.tag
  else if c == '|' && outside then l.block .literal
  else if c == '>' && outside then l.block .folded
  else if c == '\'' then l.quoted .single
  else if c == '"' then l.quoted .double
  else if l.place.atPlain l.version (!outside) then l.plain
  else .error .malformed

/-- Reads the gap in front of the next item: a comment, or nothing if a token comes. -/
def Lexer.skip (l : Lexer) : Option Remark × Lexer :=
  let gap := l.place.gap l.keeps (!l.flow.isEmpty)
  let keyAllowed := l.keyAllowed || (gap.broke && l.flow.isEmpty)
  (gap.remark, { l with place := gap.next, keyAllowed })

/-- Reads the next item. Nothing is left behind the end of the stream. -/
def Lexer.step (l : Lexer) : Except Flaw (Bool × Lexer) := do
  let unused := l.keeps || l.keys.any Option.isSome
  match l.skip with
  | (some r, l) =>
    let r := { r with text := dropEndWhile (· == ' ') r.text }
    return (true, { l with items := l.items.push (.remark r) })
  | (none, l) =>
    let l ← l.dropStale
    let l := l.unwind l.place.column
    if l.place.atEnd then
      let l ← (l.unwind (-1)).dropKey
      return (false, l.mark .streamEnd 0)
    else
      let l ← l.token unused
      return (true, l)

def announce (announced : List (Nat × List Token)) : Nat → List Item → List Item
  | _, [] => []
  | n, t :: ts =>
    ((announced.filter (·.1 = n)).flatMap (·.2)).map .token ++ t :: announce announced (n + 1) ts

/-- Items as far as they can be read, and what ends them before the end of the stream. -/
structure Items where
  list : List Item
  flaw : Option Flaw := none
  deriving DecidableEq, Repr

/-- The items that are in use when reading fails. The one of which it is not known whether it starts
a key is never used; it is left at the end when comments are kept, since then a token counts only
with an item behind it. -/
def Lexer.usable (l : Lexer) (flaw : Flaw) : Items :=
  let count := match (l.keys.filterMap fun k => k.map (·.items)).min? with
    | some n => if l.keeps then n + 1 else n
    | none => l.items.size
  ⟨announce l.announced 0 (l.items.toList.take count), some flaw⟩

def Lexer.run : Nat → Lexer → Items
  | 0, l => l.usable .malformed
  | fuel + 1, l =>
    match l.dropStale with
    | .error flaw => l.usable flaw
    | .ok l =>
      match l.step with
      | .error flaw => l.usable flaw
      | .ok (true, l) => l.run fuel
      | .ok (false, l) => ⟨announce l.announced 0 l.items.toList, none⟩

def items (keeps : Bool) (source : List Char) : Items :=
  if source.all isAllowed then (Lexer.start keeps source).run (source.length + 2)
  else ⟨[], some .malformed⟩

end ElementBundle.Data.Yaml
