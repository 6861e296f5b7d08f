import ElementBundle.Data.Yaml.Content.Shared
import ElementBundle.Data.Yaml.Print.Scalar

/-!
# Writing documents

A document is written with its directives, and its content with the comments in their places. A
collection is written in a block unless it is empty, or in brackets already, or was so before. A key
stands on one line with its value if it is short and on one line itself.
-/

namespace ElementBundle.Data.Yaml

/-- What holds for a whole document: the directives, and the names that are written. -/
structure Sheet where
  declared : Declared
  names : List (Nat × List Char)

def Sheet.version (s : Sheet) : Version :=
  s.declared.version.getD .usual

def Declared.sorted (d : Declared) : List (List Char × List Char) :=
  d.handles.mergeSort fun a b => decide (String.ofList a.1 ≤ String.ofList b.1)

/-- The text of a tag: the handle of the longest text in front of it that has one, and the rest. -/
def Sheet.tagText (s : Sheet) (label : Label) : List Char :=
  let fits (handle : List Char × List Char) : Bool :=
    handle.2.isPrefixOf label.tag && (handle.2 == ['!'] || handle.2.length < label.tag.length)
  let longest := (usualHandles ++ s.declared.sorted).foldl
    (fun (best : Option (List Char × List Char)) h =>
      if fits h && best.all (fun b => b.2.length ≤ h.2.length) then some h else best) none
  match longest, label.written with
  | some (handle, target), _ => handle ++ label.tag.drop target.length
  | none, some ⟨some handle, suffix⟩ => handle ++ suffix
  | none, some ⟨none, suffix⟩ => '!' :: '<' :: suffix ++ ['>']
  | none, none => '!' :: '<' :: label.tag ++ ['>']

inductive Role where
  | root
  | item
  /-- A key on one line with its value. -/
  | key
  /-- A value, or a key in lines of its own. -/
  | part
  deriving DecidableEq, Repr

structure Site where
  role : Role
  /-- Whether it is a member of a set. -/
  member : Bool := false
  /-- Whether the comments in front of it have been written. -/
  announced : Bool := false
  deriving DecidableEq, Repr

def Sheet.name? (s : Sheet) (anchor : Option Anchor) : Option (List Char) :=
  anchor.bind fun a => s.names.lookup a.id

def Sheet.writeName (s : Sheet) (anchor : Option Anchor) (p : Pen) : Pen :=
  match s.name? anchor with
  | some name => { p.mark ('&' :: name) true with stays := false }
  | none => p

def Sheet.writeAlias (s : Sheet) (id : Nat) (p : Pen) : Pen :=
  { p.mark ('*' :: (s.names.lookup id).getD []) true with stays := false }

/-- Writes the tag of a collection, unless it says nothing new. -/
def Sheet.writeTag (s : Sheet) (label : Label) (p : Pen) : Pen :=
  if (label.tag == sequenceTag || label.tag == mappingTag) && label.written.isNone then p
  else p.mark (s.tagText label) true

def Pen.behind (p : Pen) : Option Remark → Pen
  | some r => p.comment r false
  | none => p

/-- The comment behind a block scalar, whose lines it must not look like. -/
def behindBlock (indent : Option Nat) (r : Remark) : Remark :=
  match indent with
  | some n => if n ≤ r.column then { r with column := n - 1 } else r
  | none => r

def Sheet.writeLeaf (s : Sheet) (m : Margin) (site : Site) (anchor : Option Anchor) (label : Label)
    (text : List Char) (style : Style) (notes : Notes) (p : Pen) : Pen :=
  let p := s.writeName anchor p
  let inItem := site.role = .item && (s.name? anchor).isNone && !m.flow
  let spot : Spot := { flow := m.flow, key := site.role = .key, member := site.member }
  let implied := Implied.of s.version label text
  let old := s.declared.version == some .old
  let choose := chooseStyle old spot implied label style
  let text :=
    if text.isEmpty && choose [] = .single && label.tag == ScalarType.null.tag then "null".toList
    else text
  let style := choose text
  let told := if style = .plain then implied.plain else implied.quoted
  let p := if told then p
    else
      let p := p.mark (s.tagText label) true
      { p with stays := p.stays || inItem }
  let inner := m.scalar
  let p := if inItem then p.indentTo inner.indent else p
  let p := p.styled inner (site.role ≠ .key) (notes.header.getD []) style text
  p.behind <|
    if style = .literal || style = .folded then notes.behind.map (behindBlock inner.indent)
    else notes.behind

def Sheet.headLength (s : Sheet) (anchor : Option Anchor) (label : Label) : Nat :=
  ((s.name? anchor).getD []).length + (s.tagText label).length

def Sheet.isShort (s : Sheet) (member : Bool) : Content → Bool
  | .alias id _ => ((s.names.lookup id).getD []).length < 128
  | .leaf anchor label text style _ =>
    let vague := member || style = .literal || style = .folded
    s.headLength anchor label + text.length < 128 && !(text.isEmpty && vague) &&
      !text.any isTextBreak
  | .sequence anchor label flow items _ _ =>
    s.headLength anchor label < 128 && (flow == some true || items.isEmpty)
  | .mapping anchor label _ flow entries _ _ _ =>
    s.headLength anchor label < 128 && (flow == some true || entries.isEmpty)

def Content.isAlias : Content → Bool
  | .alias .. => true
  | _ => false

def Content.isLeaf : Content → Bool
  | .leaf .. => true
  | _ => false

def Pen.announce (p : Pen) (c : Content) : Pen :=
  if c.isAlias then p else p.comments c.notes.ahead

/-- Writes what stands between the name of a collection and its parts. The answer tells whether an
opening bracket stands in a line of its own. -/
def Pen.openSequence (p : Pen) (m : Margin) (site : Site) (flow : Bool) (notes : Notes) :
    Pen × Bool :=
  let fresh := p.fresh
  let p := if flow then p else p.behind notes.behind
  if notes.ahead.isEmpty && !notes.hugs then (p, false)
  else
    let p := if site.announced then p else p.comments notes.ahead
    ({ p with fresh, stays := !fresh }, flow && m.frames.head?.any fun f => !f.sequence)

/-- Writes what stands between the name of a mapping and its entries. -/
def Pen.openMapping (p : Pen) (m : Margin) (site : Site) (flow : Bool) (notes : Notes) :
    Pen × Bool :=
  let p := if flow then p else p.behind notes.behind
  if notes.ahead.isEmpty then (p, false)
  else
    (if site.announced then p else p.comments notes.ahead,
      flow && m.frames.head?.any fun f => !f.sequence)

def Pen.openBracket (p : Pen) (m : Margin) (bracket : Bracket) (ownLine : Bool) : Pen × Margin :=
  let inner := m.deeper true (bracket = .square) false
  let gap := (if ownLine then inner else m).align p.column ownLine
  let mark := match bracket with
    | .square => ['[']
    | .curly => ['\x7b']
    | .none => []
  (p.mark (List.replicate gap ' ' ++ mark) true true, { inner with brackets := bracket :: m.brackets })

def Pen.closeBracket (p : Pen) (m : Margin) (bracket : Bracket) (flow empty : Bool)
    (behind : Option Remark) : Pen :=
  let p := match bracket with
    | .square => p.mark [']'] false
    | .curly => p.mark ['\x7d'] false
    | .none => p
  if flow && behind.isSome then p.behind behind
  else if empty then if m.flow then p else p.endLine
  else { p with stays := false }

def Pen.nextInFlow (p : Pen) (m : Margin) (first : Bool) : Pen :=
  let p := if first then p else p.mark [','] false
  if p.isFull then p.indentTo m.indent else p

def Margin.bracketFor (m : Margin) (single : Bool) : Bracket :=
  if single && m.brackets.head? == some .square then .none else .curly

mutual

def Sheet.write (s : Sheet) (m : Margin) (site : Site) : Content → Pen → Pen
  | .alias id _, p => s.writeAlias id p
  | .leaf anchor label text style notes, p => s.writeLeaf m site anchor label text style notes p
  | .sequence anchor label flow items notes ending, p =>
    let flow := flow.getD items.isEmpty
    let (p, ownLine) :=
      (s.writeTag label (s.writeName anchor p)).openSequence m site flow notes
    if m.flow || flow || items.isEmpty then
      let (p, inner) := p.openBracket m .square ownLine
      (s.writeFlowItems inner true items p).closeBracket m .square flow items.isEmpty notes.behind
    else
      let inner := m.deeper false true (site.role ≠ .item && site.role ≠ .root && !p.fresh)
      let p := (s.writeItems inner items p).comments ending
      { p with stays := false }
  | .mapping anchor label .ordered flow entries _ notes ending, p =>
    let flow := flow.getD false
    let (p, ownLine) :=
      (s.writeTag label (s.writeName anchor p)).openSequence m site flow notes
    if m.flow || flow || entries.isEmpty then
      let (p, inner) := p.openBracket m .square ownLine
      (s.writeFlowSingles inner true entries p).closeBracket m .square flow entries.isEmpty
        notes.behind
    else
      let inner := m.deeper false true (site.role ≠ .item && site.role ≠ .root && !p.fresh)
      let p := (s.writeSingles inner entries p).comments ending
      { p with stays := false }
  | .mapping anchor label layout flow entries _ notes ending, p =>
    let members := layout = .set
    let flow := flow.getD (entries.isEmpty && !members)
    let (p, ownLine) := (s.writeTag label (s.writeName anchor p)).openMapping m site flow notes
    if m.flow || flow || entries.isEmpty then
      let bracket := m.bracketFor (entries.length = 1)
      let (p, inner) := p.openBracket m bracket ownLine
      (s.writeFlowEntries inner members flow true entries p).closeBracket m bracket flow
        entries.isEmpty notes.behind
    else
      (s.writeEntries (m.deeper false false false) members entries p).comments ending

def Sheet.writeFlowItems (s : Sheet) (m : Margin) (first : Bool) : List Content → Pen → Pen
  | [], p => p
  | c :: cs, p =>
    s.writeFlowItems m false cs (s.write m { role := .item } c (p.nextInFlow m first))

def Sheet.writeItems (s : Sheet) (m : Margin) : List Content → Pen → Pen
  | [], p => p
  | c :: cs, p =>
    let p := p.announce c
    let p := { p.indentTo m.indent with stays := p.stays }.mark [' ', ' ', '-'] true false true
    s.writeItems m cs (s.write m { role := .item, announced := true } c p)

def Sheet.writeFlowEntry (s : Sheet) (m : Margin) (members flow : Bool) :
    Entry Content → Pen → Pen
  | ⟨_, _, key, value⟩, p =>
    let p :=
      if s.isShort members key then
        let p := s.write m { role := .key, member := members } key p
        if members && flow then p else p.mark [':'] false
      else
        let p := s.write m { role := .part, member := members } key (p.mark ['?'] true)
        (if p.isFull then p.indentTo m.indent else p).mark [':'] true
    if members then p else s.write m { role := .part } value p

def Sheet.writeFlowEntries (s : Sheet) (m : Margin) (members flow first : Bool) :
    List (Entry Content) → Pen → Pen
  | [], p => p
  | e :: es, p =>
    s.writeFlowEntries m members flow false es
      (s.writeFlowEntry m members flow e (p.nextInFlow m first))

def Sheet.writeEntry (s : Sheet) (m : Margin) (members : Bool) : Entry Content → Pen → Pen
  | ⟨_, _, key, value⟩, p =>
    let p := (p.announce key).indentTo m.indent
    let p :=
      if s.isShort members key then
        let p := if members && key.isLeaf then p.mark ['?'] true false true else p
        let p := s.write m { role := .key, member := members, announced := true } key p
        let p := if key.isAlias then p.raw [' '] else p
        if members then p else p.mark [':'] false
      else
        let p := p.mark ['?'] true false true
        let p := s.write m { role := .part, member := members, announced := true } key p
        (p.indentTo m.indent).mark [':'] true false true
    if members then p else s.write m { role := .part } value p

def Sheet.writeEntries (s : Sheet) (m : Margin) (members : Bool) :
    List (Entry Content) → Pen → Pen
  | [], p => p
  | e :: es, p => s.writeEntries m members es (s.writeEntry m members e p)

def Sheet.writeFlowSingles (s : Sheet) (m : Margin) (first : Bool) :
    List (Entry Content) → Pen → Pen
  | [], p => p
  | e :: es, p =>
    let (p, inner) := (p.nextInFlow m first).openBracket m .none false
    let p := (s.writeFlowEntry inner false true e p).closeBracket m .none false false none
    s.writeFlowSingles m false es p

def Sheet.writeSingles (s : Sheet) (m : Margin) : List (Entry Content) → Pen → Pen
  | [], p => p
  | e :: es, p =>
    let p := { p.indentTo m.indent with stays := p.stays }.mark [' ', ' ', '-'] true false true
    s.writeSingles m es (s.writeEntry (m.deeper false false false) false e p)

end

def Declared.write (d : Declared) (p : Pen) : Pen :=
  let p := match d.version with
    | some v => p.raw ("%YAML " ++ toString v.major ++ "." ++ toString v.minor ++ "\n").toList
    | none => p
  let p := d.sorted.foldl (fun p (handle, target) =>
    p.raw ("%TAG ".toList ++ handle ++ ' ' :: target ++ ['\n'])) p
  if d.version.isNone && d.handles.isEmpty then p else p.mark startMark true

/-- The text of a document with some content. A version whose scalars are not known ends it behind the
directives. -/
def print (declared : Declared) (c : Content) : List Char × Except Flaw Unit :=
  let p := declared.write {}
  let s : Sheet := { declared, names := c.names }
  if s.version = .old || s.version = .usual then
    let p := (s.write {} { role := .root } c p).indentTo none
    ((if p.openEnded then (p.mark endMark true).indentTo none else p).text, .ok ())
  else (p.text, .error .unknownVersion)

end ElementBundle.Data.Yaml
