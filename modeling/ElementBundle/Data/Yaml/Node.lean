import ElementBundle.Data.Yaml.Scalar
import ElementBundle.Data.Yaml.Token.Stream

/-!
# Nodes of YAML

A document is one node: a scalar, a sequence or a mapping. A node with a name can stand in several
places; all but the first are aliases of it. Nodes keep their comments.
-/

namespace ElementBundle.Data.Yaml

/-- The name of a node, with a number that no other named node has. -/
structure Mark where
  id : Nat
  name : List Char
  deriving DecidableEq, Repr

/-- What stands in front of the content of a node: its name, the full text of its tag, and the tag
as it is written, if it is. -/
structure Head where
  mark : Option Mark := none
  tag : List Char
  written : Option Tag := none
  deriving DecidableEq, Repr

/-- A node. The `ending` are comments in front of the end of a collection. -/
inductive Node where
  | alias (id : Nat)
  | scalar (head : Head) (text : List Char) (style : Style) (folds : List Nat) (notes : Notes)
  | sequence (head : Head) (flow : Bool) (items : List Node) (notes : Notes) (ending : List Remark)
  | mapping (head : Head) (flow : Bool) (entries : List (Node × Node)) (notes : Notes)
      (ending : List Remark)

def coreTag : List Char := "tag:yaml.org,2002:".toList

def ScalarType.tag (t : ScalarType) : List Char :=
  coreTag ++ (match t with
    | .null => "null"
    | .bool => "bool"
    | .int => "int"
    | .float => "float"
    | .stamp => "timestamp"
    | .merge => "merge"
    | .value => "value"
    | .text => "str").toList

def sequenceTag : List Char := coreTag ++ "seq".toList

def mappingTag : List Char := coreTag ++ "map".toList

instance : Inhabited Node := ⟨.scalar { tag := ScalarType.null.tag } [] .plain [] {}⟩

structure Declared where
  version : Option Version := none
  handles : List (List Char × List Char) := []
  deriving DecidableEq, Repr

def usualHandles : List (List Char × List Char) :=
  [(['!'], ['!']), (['!', '!'], coreTag)]

/-- What is left to read, and what has been learned: the directives, the numbers of names, and the
nodes of these numbers. -/
structure Reader where
  stream : Stream
  version : Version := .usual
  handles : List (List Char × List Char) := usualHandles
  declared : Declared := {}
  count : Nat := 0
  names : List (List Char × Nat) := []
  named : List (Nat × Node) := []

/-- A step of reading. What has been learned stays known if it fails. -/
abbrev Parse := ExceptT Flaw (StateM Reader)

def nextToken : Parse Token := do
  let r ← get
  match r.stream.tokens with
  | t :: _ => return t
  | [] => throw r.stream.flaw

def nextKind : Parse Kind := do
  return (← nextToken).kind

def takeToken : Parse Token := do
  let t ← nextToken
  modify fun r => { r with stream := { r.stream with tokens := r.stream.tokens.tail } }
  return t

def expectToken (kind : Kind) : Parse Token := do
  if (← nextKind) = kind then takeToken else throw .malformed

def setNotes (notes : Notes) : Parse Unit :=
  modify fun r =>
    match r.stream.tokens with
    | t :: ts => { r with stream := { r.stream with tokens := { t with notes } :: ts } }
    | [] => r

/-- Hands comments on to the next token. The end of the stream and the start of a document take none;
the comments that remain are given back. -/
def handOn (notes : Notes) : Parse Notes := do
  if notes.isEmpty then return notes
  else
    let t ← nextToken
    if t.kind = .streamEnd || t.kind = .documentStart then return notes
    else
      setNotes (← notes.join t.notes)
      return {}

def offer (notes : Notes) : Parse Unit := do
  let t ← nextToken
  if t.kind = .streamEnd || t.kind = .documentStart then return
  else
    match notes.join t.notes with
    | .ok joined => setNotes joined
    | .error _ => return

def enroll (name : Option (List Char)) : Parse (Option Mark) := do
  match name with
  | none => return none
  | some name =>
    let r ← get
    set { r with count := r.count + 1, names := (name, r.count) :: r.names }
    return some ⟨r.count, name⟩

def remember (mark : Option Mark) (node : Node) : Parse Node := do
  match mark with
  | none => return node
  | some m =>
    modify fun r => { r with named := (m.id, node) :: r.named }
    return node

def resolveText (text : List Char) : Parse ScalarType := do
  let r ← get
  if r.version = .old || r.version = .usual then return resolve r.version text
  else throw .unknownVersion

def emptyNode (notes : Notes) : Parse Node := do
  return .scalar { tag := (← resolveText []).tag } [] .plain [] notes

/-- The name and the tag in front of a node, in either order. -/
structure Properties where
  name : Option (List Char) := none
  tag : Option Tag := none
  deriving DecidableEq, Repr

/-- Reads the name and the tag of a node. The comments of the first one go on. -/
def readProperties : Parse Properties := do
  match ← nextKind with
  | .anchor name =>
    let _ ← handOn (← takeToken).notes
    match ← nextKind with
    | .tag tag =>
      let _ ← takeToken
      return { name := some name, tag := some tag }
    | _ => return { name := some name }
  | .tag tag =>
    offer (← takeToken).notes
    match ← nextKind with
    | .anchor name =>
      let _ ← takeToken
      return { name := some name, tag := some tag }
    | _ => return { tag := some tag }
  | _ => return {}

def fullTag (tag : Tag) : Parse (List Char) := do
  match tag.handle with
  | none => return tag.suffix
  | some handle =>
    match (← get).handles.lookup handle with
    | some target => return target ++ tag.suffix
    | none => throw .malformed

def isBareTag (tag : List Char) : Bool :=
  tag == ['!']

/-- The head of a scalar. Without a tag a plain one has the type that its text resolves to, and with
a bare tag any one. -/
def scalarHead (p : Properties) (mark : Option Mark) (text : List Char) (plain : Bool) :
    Parse Head := do
  match p.tag with
  | none =>
    let type ← if plain then resolveText text else pure .text
    return { mark, tag := type.tag }
  | some tag =>
    let full ← fullTag tag
    if isBareTag full then return { mark, tag := (← resolveText text).tag }
    else return { mark, tag := full, written := some tag }

def collectionHead (p : Properties) (mark : Option Mark) (usual : List Char) : Parse Head := do
  match p.tag with
  | none => return { mark, tag := usual }
  | some tag =>
    let full ← fullTag tag
    if isBareTag full then return { mark, tag := usual }
    else return { mark, tag := full, written := some tag }

/-- Where a node stands: in a block, as the key or value of a mapping in a block, or in brackets. -/
inductive Place where
  | block
  | entry
  | flow
  deriving DecidableEq, Repr

def nextIs (kinds : List Kind) : Parse Bool := do
  return kinds.contains (← nextKind)

/-- The comments of a collection in brackets: those of the closing bracket, if it has any. -/
def closeNotes (start close : Notes) : Notes × List Remark :=
  if close.isEmpty then (start, []) else ({ close with ahead := [] }, close.ahead)

mutual

/-- Reads a node. The fuel bounds the nesting and the number of entries. -/
def readNode (place : Place) : Nat → Parse Node
  | 0 => throw .malformed
  | fuel + 1 => do
    match ← nextKind with
    | .alias name =>
      match (← get).names.lookup name with
      | some id =>
        let _ ← takeToken
        return .alias id
      | none => throw .malformed
    | _ =>
      let p ← readProperties
      if let some tag := p.tag then
        let _ ← fullTag tag
      let t ← nextToken
      match t.kind with
      | .scalar text style folds =>
        let t ← takeToken
        let mark ← enroll p.name
        let head ← scalarHead p mark text (style = .plain)
        remember mark (.scalar head text style folds t.notes)
      | .flowSequenceStart =>
        let mark ← enroll p.name
        let head ← collectionHead p mark sequenceTag
        let _ ← takeToken
        let (items, close) ← readFlowItems true fuel
        let (notes, ending) := closeNotes t.notes close
        remember mark (.sequence head true items notes ending)
      | .flowMappingStart =>
        let mark ← enroll p.name
        let head ← collectionHead p mark mappingTag
        let _ ← takeToken
        let (entries, close) ← readFlowEntries true fuel
        let (notes, ending) := closeNotes t.notes close
        remember mark (.mapping head true entries notes ending)
      | .blockSequenceStart =>
        if place = .flow then throw .malformed
        else
          let mark ← enroll p.name
          let head ← collectionHead p mark sequenceTag
          let _ ← takeToken
          let items ← readItems false fuel
          let close ← expectToken .blockEnd
          remember mark (.sequence head false items t.notes close.notes.ahead)
      | .blockMappingStart =>
        if place = .flow then throw .malformed
        else
          let mark ← enroll p.name
          let head ← collectionHead p mark mappingTag
          let _ ← takeToken
          let entries ← readEntries fuel
          let close ← expectToken .blockEnd
          let left ← handOn close.notes
          remember mark (.mapping head false entries t.notes left.ahead)
      | kind =>
        if kind = .blockEntry && place = .entry then
          let behind := t.notes.behind
          setNotes { t.notes with behind := none }
          let mark ← enroll p.name
          let head ← collectionHead p mark sequenceTag
          let items ← readItems true fuel
          let after ← nextToken
          setNotes { after.notes with ahead := [] }
          let notes := { behind, hugs := behind.isSome }
          remember mark (.sequence head false items notes after.notes.ahead)
        else if p.name.isSome || p.tag.isSome then
          let mark ← enroll p.name
          let head ← scalarHead p mark [] true
          remember mark (.scalar head [] .plain [] {})
        else throw .malformed

/-- Reads the items of a sequence in a block. Where the dashes are not indented, the next key ends
them. -/
def readItems (hugging : Bool) : Nat → Parse (List Node)
  | 0 => throw .malformed
  | fuel + 1 => do
    if (← nextKind) ≠ .blockEntry then return []
    else
      let _ ← handOn (← takeToken).notes
      let ends := if hugging then [Kind.blockEntry, .key, .value, .blockEnd]
        else [.blockEntry, .blockEnd]
      let node ← if ← nextIs ends then emptyNode {} else readNode .block fuel
      let nodes ← readItems hugging fuel
      return node :: nodes

def readEntries : Nat → Parse (List (Node × Node))
  | 0 => throw .malformed
  | fuel + 1 => do
    match ← nextKind with
    | .key =>
      let _ ← handOn (← takeToken).notes
      let key ← if ← nextIs [.key, .value, .blockEnd] then emptyNode {} else readNode .entry fuel
      let value ← readValue fuel
      let entries ← readEntries fuel
      return (key, value) :: entries
    | .value =>
      if (← get).version.isLater then
        let key ← emptyNode {}
        let value ← readValue fuel
        let entries ← readEntries fuel
        return (key, value) :: entries
      else return []
    | _ => return []

/-- Reads the value of an entry, if it has one. The comments of the colon go on to the value; where
there is none they are comments of nothing. -/
def readValue : Nat → Parse Node
  | 0 => throw .malformed
  | fuel + 1 => do
    if (← nextKind) ≠ .value then emptyNode {}
    else
      let t ← takeToken
      let left ← if (← nextKind) = .key then pure t.notes else handOn t.notes
      if ← nextIs [.key, .value, .blockEnd] then
        if left.isEmpty then
          let next ← nextToken
          setNotes { next.notes with behind := none }
          emptyNode { behind := next.notes.behind }
        else emptyNode left
      else readNode .entry fuel

/-- Reads the items of a sequence in brackets; gives the comments of the closing bracket. -/
def readFlowItems (first : Bool) : Nat → Parse (List Node × Notes)
  | 0 => throw .malformed
  | fuel + 1 => do
    if (← nextKind) = .flowSequenceEnd then return ([], (← takeToken).notes)
    else
      if !first then
        let _ ← expectToken .flowEntry
      match ← nextKind with
      | .flowSequenceEnd => return ([], (← takeToken).notes)
      | .key =>
        let _ ← takeToken
        let pair ← readPair .flowSequenceEnd fuel
        let (nodes, notes) ← readFlowItems false fuel
        return (.mapping { tag := mappingTag } true [pair] {} [] :: nodes, notes)
      | _ =>
        let node ← readNode .flow fuel
        let (nodes, notes) ← readFlowItems false fuel
        return (node :: nodes, notes)

def readPair (close : Kind) : Nat → Parse (Node × Node)
  | 0 => throw .malformed
  | fuel + 1 => do
    let key ← if ← nextIs [.value, .flowEntry, close] then emptyNode {} else readNode .flow fuel
    if (← nextKind) ≠ .value then return (key, ← emptyNode {})
    else
      let _ ← takeToken
      let value ← if ← nextIs [.flowEntry, close] then emptyNode {} else readNode .flow fuel
      return (key, value)

/-- Reads the entries of a mapping in brackets; gives the comments of the closing bracket. -/
def readFlowEntries (first : Bool) : Nat → Parse (List (Node × Node) × Notes)
  | 0 => throw .malformed
  | fuel + 1 => do
    if (← nextKind) = .flowMappingEnd then return ([], (← takeToken).notes)
    else
      if !first then
        let _ ← expectToken .flowEntry
      match ← nextKind with
      | .flowMappingEnd => return ([], (← takeToken).notes)
      | .key =>
        let _ ← takeToken
        let pair ← readPair .flowMappingEnd fuel
        let (entries, notes) ← readFlowEntries false fuel
        return (pair :: entries, notes)
      | kind =>
        let pair ←
          if kind = .value && (← get).version.isLater then readPair .flowMappingEnd fuel
          else do
            let key ← readNode .flow fuel
            let value ← emptyNode {}
            pure (key, value)
        let (entries, notes) ← readFlowEntries false fuel
        return (pair :: entries, notes)

end

/-- Reads directives. A version must be one of the first major one, and a handle has one meaning. -/
def readDirectives : Nat → Declared → Parse Declared
  | 0, _ => throw .malformed
  | fuel + 1, d => do
    match ← nextKind with
    | .version v =>
      let _ ← takeToken
      if d.version.isSome || v.major ≠ 1 then throw .malformed
      else readDirectives fuel { d with version := some v }
    | .handle name target =>
      let _ ← takeToken
      if (d.handles.lookup name).isSome then throw .malformed
      else readDirectives fuel { d with handles := d.handles ++ [(name, target)] }
    | .directive =>
      let _ ← takeToken
      readDirectives fuel d
    | _ => return d

def addHandles (old new : List (List Char × List Char)) : List (List Char × List Char) :=
  old.filter (fun h => (new.lookup h.1).isNone) ++ new

def readStart (fuel : Nat) : Parse Unit := do
  let d ← readDirectives fuel {}
  modify fun r => { r with
    version := d.version.getD r.version
    handles := d.handles ++ usualHandles
    declared := ⟨d.version, addHandles r.declared.handles d.handles⟩ }
  let _ ← expectToken .documentStart

def takeEnds : Nat → Parse Unit
  | 0 => throw .malformed
  | fuel + 1 => do
    if (← nextKind) = .documentEnd then
      let _ ← takeToken
      takeEnds fuel

def Kind.isBoundary : Kind → Bool
  | .version _ | .handle .. | .directive | .documentStart | .streamEnd => true
  | _ => false

/-- Reads what is behind a document: nothing but marks of its end, of which the first has a line of
its own. -/
def readEnd (fuel : Nat) : Parse Unit := do
  if (← nextKind) = .documentEnd then
    let mark ← takeToken
    let t ← nextToken
    if t.kind ≠ .streamEnd && mark.last = t.first then throw .malformed
    if (← get).version ≠ .old && !t.kind.isBoundary then throw .malformed
  takeEnds fuel
  if (← nextKind) ≠ .streamEnd then
    readStart fuel
    throw .malformed

/-- Reads the only document. -/
def readDocument (fuel : Nat) : Parse (Option Node) := do
  let kind ← nextKind
  if kind = .streamEnd then return none
  else
    let node ←
      if kind.isBoundary then do
        readStart fuel
        let kind ← nextKind
        if kind.isBoundary || kind = .documentEnd then emptyNode {} else readNode .block fuel
      else readNode .block fuel
    readEnd fuel
    return some node

/-- A document: its node, if there is any, the nodes of the numbers in it, and its directives. -/
structure Document where
  node : Option Node
  named : List (Nat × Node) := []
  version : Version := .usual

/-- Reads the document of a text. The directives are known as far as they have been read. -/
def document (keeps : Bool) (source : List Char) : Except Flaw Document × Declared :=
  let stream := stream keeps source
  let (result, r) := (readDocument (2 * stream.tokens.length + 4)).run { stream }
  (result.map fun node => { node, named := r.named, version := r.version }, r.declared)

end ElementBundle.Data.Yaml
