import ElementBundle.Data.Yaml.Content
import ElementBundle.Data.Yaml.Read
import ElementBundle.Text.Blank

/-!
# Content from nodes

Each node becomes content once; where it is named again there is an alias of it. Some scalars have no
identity: nothing, zero, whole numbers with zeros in front, infinities, bytes. An alias of such a
scalar becomes a copy of it.
-/

namespace ElementBundle.Data.Yaml

open ElementBundle.Text

/-- Content, and the value that it compares as when it is a key. -/
structure Kept where
  content : Content
  value : Option Value
  deriving Inhabited

def Kept.null : Kept := ⟨.null, some .null⟩

abbrev Keep := StateT (List (Nat × Kept)) (Except Flaw)

def rememberKept (mark : Option Mark) (k : Kept) : Keep Kept := do
  if let some m := mark then
    modify fun known => (m.id, k) :: known
  return k

def Kept.again (id : Nat) (k : Kept) : Kept :=
  match k.content with
  | .leaf none .. => k
  | c => { k with content := .alias id c.notes }

/-- Takes the comments of a named node away, because another node has them. -/
def forgetNotes : Node → Keep Unit
  | .alias id => forget id
  | node => do
    if let some m := node.mark? then
      forget m.id
where
  forget (id : Nat) : Keep Unit :=
    modify fun known => known.map fun (i, k) =>
      if i = id then (i, { k with content := (k.content.withNotes {}).withoutEnding }) else (i, k)

def isGivenName : List Char → Bool
  | 'i' :: 'd' :: s =>
    3 ≤ (s.takeWhile fun c => (digitValue? c).isSome).length && s ≠ ['0', '0', '0']
  | _ => false

/-- The identity of named content, whose name is lost if it is one that is given. -/
def keptAnchor (always : Bool) (mark : Option Mark) : Option Anchor :=
  mark.map fun m =>
    if isGivenName m.name then { id := m.id } else { id := m.id, name := some m.name, always }

def namedAnchor (mark : Option Mark) : Option Anchor :=
  mark.map fun m => { id := m.id, name := some m.name, always := true }

def namelessAnchor (mark : Option Mark) : Option Anchor :=
  mark.map fun m => { id := m.id }

/-- Puts marks where the lines of a folded text were joined by a space. -/
def markFolds (folds : List Nat) (text : List Char) : List Char :=
  go 0 none text
where
  /-- Goes through the text; the last character decides about the next one. -/
  go : Nat → Option Char → List Char → List Char
    | n, last, ' ' :: c :: s =>
      let divides := folds.contains n && !isBlank c && last.any fun b => !isBlank b
      (if divides then [foldMark, ' '] else [' ']) ++ go (n + 1) (some ' ') (c :: s)
    | n, _, c :: s => c :: go (n + 1) (some c) s
    | _, _, [] => []

def hasHandle (written : Option Tag) : Bool :=
  written.any (·.handle.isSome)

/-- The text of a stamp that is kept. A letter in front of the time and the text of a zone stay. -/
def WrittenStamp.text (w : WrittenStamp) : List Char :=
  match w.stamp.clock with
  | none => w.stamp.text ' '
  | some c =>
    if w.lettered || w.signed then
      let bare := { w.stamp with clock := some { c with zone := none } }
      bare.text (if w.lettered then 'T' else ' ') ++
        match c.zone with
        | some z => z.name
        | none => []
    else w.stamp.text ' '

def keepScalar (d : Document) (declared : Option Version) (head : Head) (text : List Char)
    (style : Style) (folds : List Nat) (notes : Notes) : Except Flaw Kept :=
  let named := namedAnchor head.mark
  let tagged : Kept :=
    ⟨.leaf (keptAnchor true head.mark) ⟨head.tag, head.written⟩ text style notes, none⟩
  let leaf (anchor : Option Anchor) (type : ScalarType) (text : List Char) (value : Value) : Kept :=
    ⟨.leaf anchor type.label text .plain notes, some value⟩
  match NodeType.ofTag head.tag with
  | .scalar .null => .ok (leaf none .null [] .null)
  | .scalar .bool => do
    let b ← readTruth text
    return leaf named .bool (if b then "true" else "false").toList (.bool b)
  | .scalar .int => do
    let k ← keepInt d.version text
    return leaf (if k.named then named else none) .int k.text (.int k.value)
  | .scalar .float => do
    let k ← keepFloat d.version text
    return leaf (if k.form.isSome then named else none) .float (k.text declared) (.float k.value)
  | .scalar .stamp => do
    let w ← readStamp text
    return leaf (namelessAnchor head.mark) .stamp w.text (.stamp w.stamp)
  | .scalar .text =>
    if hasHandle head.written then .ok tagged
    else
      let value := some (.text (String.ofList text))
      match style with
      | .literal => .ok ⟨.leaf named ScalarType.text.label text .literal notes, value⟩
      | .folded =>
        .ok ⟨.leaf named ScalarType.text.label (markFolds folds text) .folded notes, value⟩
      | _ => .ok ⟨.leaf named ScalarType.text.label text .plain notes, value⟩
  | .bytes => do
    let bytes ← readBytes text
    return ⟨.leaf none ⟨head.tag, none⟩ (bytesText bytes) .literal notes, some (.bytes bytes)⟩
  | .scalar .merge | .scalar .value | .other => .ok tagged
  | .sequence | .mapping | .set | .ordered | .pairs => .error .malformed

def keptValues (ks : List Kept) : Option (List Value) :=
  ks.mapM (·.value)

def hasName (name : Option Value) (entries : List (Entry Content)) : Bool :=
  match name with
  | none => false
  | some v => entries.any fun e => e.name.any v.same

def entriesValue (entries : List (Entry Content)) (values : List (Option Value)) : Option Value := do
  let pairs ← (entries.zip values).mapM fun (e, v) => do return (← e.name, ← v)
  some (.mapping pairs)

def actual (c : Content) : Keep Content := do
  match c with
  | .alias id _ => return (((← get).lookup id).map (·.content)).getD .null
  | c => return c

def asTuple : Option Value → Option Value
  | some (.list vs) => some (.tuple vs)
  | _ => none

/-- A key that is kept: what it compares as, and its content. A list becomes a tuple of its items and
a mapping is taken with all its entries; both lose their names and the comments inside. -/
def asKeptKey (d : Document) (node : Node) (k : Kept) : Keep (Option Value × Content) := do
  match d.target node, ← actual k.content with
  | .sequence head flow .., .sequence _ _ _ items .. =>
    if NodeType.ofTag head.tag = .pairs then throw .malformed
    else
      return (asTuple k.value,
        .sequence none ⟨sequenceTag, none⟩ (some flow) (items.map (·.bare)) k.content.notes [])
  | target, .mapping _ _ layout _ entries _ _ _ =>
    if layout = .set then throw .malformed
    else
      let flow := match target with
        | .mapping _ flow .. | .sequence _ flow .. => flow
        | _ => true
      let entries := entries.map fun e =>
        { e with own := true, key := e.key.bare, value := e.value.bare }
      return (k.value, .mapping none ⟨mappingTag, none⟩ .mapping (some flow) entries none
        k.content.notes [])
  | _, _ => return (k.value, k.content)

/-- Whether a value that is kept can change, so that it is no key. The items of a tuple and the values
of a mapping count. -/
def keyChanges : Option Value → Bool
  | some (.mapping entries) => entries.any (·.2.canChange)
  | some v => v.canChange
  | none => false

/-- What a mapping takes from others: the place among its entries, the mappings, and their content as
a whole. -/
structure Merge where
  place : Nat
  parts : List Kept
  whole : Content

/-- Divides the entries of a mapping into the merged mappings and its own entries. -/
def findMerge (d : Document) (keep : Node → Keep Kept) :
    List (Node × Node) → Option Merge → List (Node × Node) →
      Keep (Option Merge × List (Node × Node))
  | [], merge, own => return (merge, own)
  | (key, value) :: entries, merge, own => do
    if (d.target key).tag ≠ ScalarType.merge.tag then
      findMerge d keep entries merge (own ++ [(d.entryKey key, value)])
    else if merge.any fun m => !m.parts.isEmpty then throw .malformed
    else
      match d.target value with
      | .mapping .. =>
        let k ← keep value
        let whole := (merge.map (·.whole)).getD k.content
        findMerge d keep entries (some ⟨own.length, [k], whole⟩) own
      | .sequence _ _ items _ _ =>
        let whole ← keep value
        let parts ← items.mapM fun item =>
          match d.target item with
          | .mapping .. => keep item
          | _ => throw .malformed
        findMerge d keep entries (some ⟨own.length, parts, whole.content⟩) own
      | _ => throw .malformed

/-- The entries that mappings bring into another one, which has some of them already. -/
def mergedEntries : List Kept → List (Entry Content) → Keep (List (Entry Content))
  | [], entries => return entries
  | k :: ks, entries => do
    match ← actual k.content with
    | .mapping _ _ .mapping _ inner .. =>
      let entries := inner.foldl (fun entries e =>
        if hasName e.name entries then entries
        else entries ++ [{ e with
          own := false, key := e.key.withNotes {}, value := e.value.withNotes {} }]) entries
      mergedEntries ks entries
    | _ => throw .selfMerge

def bareEntries (entries : List (Entry Content)) : List (Entry Content) :=
  entries.map fun e => { e with key := e.key.bareItem, value := e.value.bare }

def keepsTag (head : Head) : Bool :=
  match NodeType.ofTag head.tag with
  | .other | .scalar .merge | .scalar .value => true
  | .scalar .text => hasHandle head.written
  | _ => false

def keptLabel (head : Head) : Label :=
  ⟨head.tag, if keepsTag head then head.written else none⟩

/-- Keeps the items of a sequence. A comment in the head of a block scalar among them leaves no room
for the comments of the items. -/
def keepSequence (keep : Node → Keep Kept) (head : Head) (flow : Bool) (items : List Node)
    (notes : Notes) (ending : List Remark) : Keep Kept := do
  let items ← items.mapM fun item => do
    let k ← keep item
    forgetNotes item
    return { k with content := k.content.withoutEnding }
  let crowded := items.any fun k => k.content.notes.header.isSome
  let contents := items.map fun k => if crowded then k.content.bareItem else k.content
  let flow := if keepsTag head || !items.isEmpty then some flow else none
  let ending := if crowded then [] else ending
  return ⟨.sequence (keptAnchor false head.mark) (keptLabel head) flow contents notes ending,
    (keptValues items).map .list⟩

/-- Keeps an ordered mapping, which is written as a sequence of mappings with one entry each. The
comments of such a mapping belong to its key. -/
def keepOrdered (d : Document) (keep : Node → Keep Kept) (head : Head) (flow : Bool)
    (items : List Node) (notes : Notes) (ending : List Remark) : Keep Kept := do
  let (entries, values) ← items.foldlM
    (fun (done : List (Entry Content) × List (Option Value)) item => do
      match singleEntry? d item, d.target item with
      | some (keyNode, valueNode), .mapping _ _ _ outer _ =>
        let key ← keep keyNode
        if key.value.any (·.canChange) then throw .changeableKey
        if hasName key.value done.1 then throw .repeatedKey
        let value ← keep valueNode
        let inner := key.content.notes
        let notes := if outer.isEmpty then inner
          else { outer with ahead := if inner.ahead.isEmpty then outer.ahead else inner.ahead }
        let entry : Entry Content :=
          { name := key.value, key := key.content.withNotes notes, value := value.content }
        return (done.1 ++ [entry], done.2 ++ [value.value])
      | _, _ => throw .malformed) ([], [])
  return ⟨.mapping (namelessAnchor head.mark) ⟨head.tag, none⟩ .ordered (some flow) entries none notes
    ending, entriesValue entries values⟩

def keepPairs (d : Document) (keep : Node → Keep Kept) (head : Head) (items : List Node)
    (notes : Notes) : Keep Kept := do
  let pairs ← items.mapM fun item => do
    match singleEntry? d item with
    | some (keyNode, valueNode) =>
      let key ← keep keyNode
      let value ← keep valueNode
      return Content.sequence none ⟨sequenceTag, none⟩ none [key.content.bare, value.content.bare] {} []
    | none => throw .malformed
  return ⟨.sequence (namelessAnchor head.mark) ⟨sequenceTag, none⟩ none pairs notes [],
    some (.list [])⟩

def asMember (k : Kept) : Keep (Option Value × Content) := do
  match ← actual k.content with
  | .sequence _ _ _ items _ _ =>
    return (asTuple k.value,
      .sequence none ⟨sequenceTag, none⟩ none (items.map (·.bare)) k.content.notes [])
  | .mapping .. => throw .malformed
  | _ => return (k.value, k.content)

def keepSet (keep : Node → Keep Kept) (head : Head) (flow : Bool) (entries : List (Node × Node))
    (notes : Notes) (ending : List Remark) : Keep Kept := do
  let entries ← entries.foldlM (fun (done : List (Entry Content)) (keyNode, valueNode) => do
    let (name, content) ← asMember (← keep keyNode)
    let _ ← keep valueNode
    if keyChanges name then throw .changeableKey
    if hasName name done then throw .malformed
    return done ++ [{ name, key := content, value := .null }]) []
  let crowded := entries.any fun e => e.key.notes.header.isSome
  let entries := if crowded then bareEntries entries else entries
  return ⟨.mapping (keptAnchor false head.mark) ⟨head.tag, none⟩ .set (some flow) entries none notes
    (if crowded then [] else ending), some (.set [])⟩

/-- Keeps a mapping, after the mappings that are merged into it. A comment in the head of a block
scalar among its keys leaves no room for the comments of the entries. -/
def keepMapping (d : Document) (keep : Node → Keep Kept) (head : Head) (flow : Bool)
    (entries : List (Node × Node)) (notes : Notes) (ending : List Remark) : Keep Kept := do
  let (merge, own) ← findMerge d keep entries none []
  let (kept, values) ← own.foldlM
    (fun (done : List (Entry Content) × List (Option Value)) (keyNode, valueNode) => do
      let (name, content) ← asKeptKey d keyNode (← keep keyNode)
      let value ← keep valueNode
      if keyChanges name then throw .changeableKey
      if hasName name done.1 then throw .malformed
      let entry : Entry Content := { name, key := content, value := value.content }
      return (done.1 ++ [entry], done.2 ++ [value.value])) ([], [])
  let crowded := kept.any fun e => e.key.notes.header.isSome
  let kept := if crowded then bareEntries kept else kept
  let all ← mergedEntries ((merge.map (·.parts)).getD []) kept
  let flow := if keepsTag head || !all.isEmpty then some flow else none
  let merge := merge.bind fun m => if m.parts.isEmpty then none else some (m.place, m.whole)
  return ⟨.mapping (keptAnchor false head.mark) (keptLabel head) .mapping flow all merge notes
    (if crowded then [] else ending), entriesValue kept values⟩

/-- Keeps a node. `busy` are the named nodes around it; an alias of one of them is nothing, unless it
is the whole document. -/
def keepNode (d : Document) (declared : Option Version) (root : Option Nat) :
    Nat → List Nat → Node → Keep Kept
  | 0, _, _ => throw .malformed
  | fuel + 1, busy, node => do
    let known ← get
    match node with
    | .alias id =>
      if busy.contains id then
        if root = some id then return ⟨.alias id {}, some (.loop .mapping)⟩ else return Kept.null
      else
        match known.lookup id, d.named.lookup id with
        | some k, _ => return k.again id
        | none, some target => return (← keepNode d declared root fuel busy target).again id
        | none, none => throw .malformed
    | node =>
      match node.mark?.bind fun m => known.lookup m.id with
      | some k => return k
      | none =>
        let keep := keepNode d declared root fuel ((node.mark?.map (·.id)).toList ++ busy)
        let kept ← match node with
          | .alias _ => throw .malformed
          | .scalar head text style folds notes =>
            keepScalar d declared head text style folds notes
          | .sequence head flow items notes ending =>
            match NodeType.ofTag head.tag with
            | .ordered => keepOrdered d keep head flow items notes ending
            | .pairs => keepPairs d keep head items notes
            | .sequence => keepSequence keep head flow items notes ending
            | _ =>
              if keepsTag head then keepSequence keep head flow items notes ending
              else throw .malformed
          | .mapping head flow entries notes ending =>
            match NodeType.ofTag head.tag with
            | .set => keepSet keep head flow entries notes ending
            | .mapping => keepMapping d keep head flow entries notes ending
            | _ =>
              if keepsTag head then keepMapping d keep head flow entries notes ending
              else throw .malformed
        rememberKept node.mark? kept

/-- A document that is kept: its content, if there is any, and what has become of the named nodes. -/
structure KeptDocument where
  content : Option Content := none
  known : List (Nat × Content) := []

def Document.keep (d : Document) (declared : Option Version) (length : Nat) :
    Except Flaw KeptDocument :=
  match d.node with
  | none => .ok {}
  | some node => do
    let root := node.mark?.map (·.id)
    let (kept, known) ← (keepNode d declared root (d.reach length) [] node).run []
    return { content := some kept.content, known := known.map fun (id, k) => (id, k.content) }

end ElementBundle.Data.Yaml
