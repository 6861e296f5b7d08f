import ElementBundle.Data.Key
import ElementBundle.Data.Yaml.Scalar.Value

/-!
# Reading YAML

The value of a document. A mapping can be merged into another one, whose own entries win; otherwise
a mapping has no key twice. Of several flaws the one at the least depth is reported, and of those at
one depth the first.
-/

namespace ElementBundle.Data.Yaml

structure Found where
  depth : Nat
  flaw : Flaw
  deriving DecidableEq, Repr

/-- The flaw that counts: the one at the lesser depth, else the first. -/
def Found.least : Option Found → Option Found → Option Found
  | none, g => g
  | some f, none => some f
  | some f, some g => some (if g.depth < f.depth then g else f)

/-- A result together with the flaw that counts among those met on the way to it. With a flaw the
result means nothing. -/
structure Checked (α : Type) where
  result : α
  found : Option Found := none

instance : Monad Checked where
  pure a := ⟨a, none⟩
  bind c f :=
    let d := f c.result
    ⟨d.result, Found.least c.found d.found⟩

def Checked.fail [Inhabited α] (depth : Nat) (flaw : Flaw) : Checked α :=
  ⟨default, some ⟨depth, flaw⟩⟩

def Checked.of [Inhabited α] (depth : Nat) : Except Flaw α → Checked α
  | .ok a => pure a
  | .error flaw => .fail depth flaw

/-- The result, unless there is a flaw. -/
def Checked.toExcept (c : Checked α) : Except Flaw α :=
  match c.found with
  | some f => .error f.flaw
  | none => .ok c.result

def Node.tag : Node → List Char
  | .alias _ => []
  | .scalar head .. | .sequence head .. | .mapping head .. => head.tag

def Node.mark? : Node → Option Mark
  | .alias _ => none
  | .scalar head .. | .sequence head .. | .mapping head .. => head.mark

/-- The node that an alias stands for; other nodes stand for themselves. -/
def Document.target (d : Document) : Node → Node
  | .alias id => (d.named.lookup id).getD default
  | node => node

/-- The entries of a mapping, those of others merged into it apart. -/
structure Entries where
  merged : List (Node × Node) := []
  own : List (Node × Node) := []
  deriving Inhabited

def Entries.all (e : Entries) : List (Node × Node) :=
  e.merged ++ e.own

/-- The key of an entry. A key that only marks a value is a text. -/
def Document.entryKey (d : Document) (key : Node) : Node :=
  match d.target key with
  | .scalar head text style folds notes =>
    if head.tag == ScalarType.value.tag then
      .scalar { head with tag := ScalarType.text.tag } text style folds notes
    else key
  | _ => key

/-- Divides the entries of a mapping. Mappings in a list are merged so that the first ones win. Inside
itself a mapping has only its own entries. -/
def divideEntries (d : Document) : Nat → List Nat → List (Node × Node) → Except Flaw Entries
  | 0, _, _ => .error .malformed
  | fuel + 1, busy, entries =>
    entries.foldlM (fun e (key, value) => do
      if (d.target key).tag ≠ ScalarType.merge.tag then
        return { e with own := e.own ++ [(d.entryKey key, value)] }
      else if !e.merged.isEmpty then .error .malformed
      else
        match d.target value with
        | .mapping head _ inner _ _ =>
          let inner ← mergedEntries head.mark inner busy (divideEntries d fuel)
          return { e with merged := inner }
        | .sequence _ _ items _ _ =>
          let parts ← items.mapM fun item =>
            match d.target item with
            | .mapping head _ inner _ _ => mergedEntries head.mark inner busy (divideEntries d fuel)
            | _ => .error .malformed
          return { e with merged := parts.reverse.flatten }
        | _ => .error .malformed) {}
where
  /-- What a mapping brings into another one. -/
  mergedEntries (mark : Option Mark) (inner : List (Node × Node)) (busy : List Nat)
      (divide : List Nat → List (Node × Node) → Except Flaw Entries) :
      Except Flaw (List (Node × Node)) :=
    match mark with
    | none => (divide busy inner).map Entries.all
    | some m =>
      if busy.contains m.id then
        .ok (inner.filter fun (key, _) => (d.target key).tag ≠ ScalarType.merge.tag)
      else (divide (m.id :: busy) inner).map Entries.all

/-- The text of a node that is to be a scalar. A mapping has the text of the value that it marks. -/
def scalarText? (d : Document) : Nat → Node → Option (List Char)
  | 0, _ => none
  | fuel + 1, node =>
    match d.target node with
    | .scalar _ text _ _ _ => some text
    | .mapping _ _ entries _ _ =>
      match entries.find? fun (key, _) => (d.target key).tag == ScalarType.value.tag with
      | some (_, value) => scalarText? d fuel value
      | none => none
    | _ => none

def asKey (depth : Nat) : Value → Checked Value
  | .list items => pure (.tuple items)
  | .mapping _ | .set _ | .loop _ => .fail depth .malformed
  | key => pure key

/-- Adds an entry in the place of the one with its key, or at the end. -/
def putEntry (key value : Value) : List (Value × Value) → List (Value × Value)
  | [] => [(key, value)]
  | (k, v) :: entries =>
    if k.same key then (k, value) :: entries else (k, v) :: putEntry key value entries

def hasKey (key : Value) (entries : List (Value × Value)) : Bool :=
  entries.any (·.1.same key)

/-- The only entry of a node that is to be a mapping with one. -/
def singleEntry? (d : Document) (node : Node) : Option (Node × Node) :=
  match d.target node with
  | .mapping _ _ [entry] _ _ => some entry
  | _ => none

/-- The value of a node. Inside a key everything is met at once; otherwise a collection is met before
what it holds. `opened` are the named nodes around the node, and whether they are in a key. -/
def nodeValue (d : Document) :
    Nat → List (Nat × Bool) → Bool → Nat → Node → Checked Value
  | 0, _, _, depth, _ => .fail depth .malformed
  | fuel + 1, opened, inKey, depth, node =>
    match node with
    | .alias id =>
      match opened.lookup id with
      | some true => pure .null
      | some false =>
        match d.target node with
        | .sequence .. => pure (.loop .list)
        | _ => pure (.loop .mapping)
      | none =>
        match d.named.lookup id with
        | some target => nodeValue d fuel opened inKey depth target
        | none => .fail depth .malformed
    | node =>
      let opened := match node.mark? with
        | some m => (m.id, inKey) :: opened
        | none => opened
      let inner := if inKey then depth else depth + 1
      let each := nodeValue d fuel opened inKey inner
      let entries : Checked (List (Value × Value)) :=
        match node with
        | .mapping head _ entries _ _ => do
          let busy := head.mark.toList.map (·.id)
          let divided ← Checked.of inner (divideEntries d (fuel + 1) busy entries)
          divided.all.foldlM (fun done (keyNode, valueNode) => do
            let key ← nodeValue d fuel opened true inner keyNode
            let key ← asKey inner key
            let value ← each valueNode
            if key.canChange then .fail inner .changeableKey
            else if divided.merged.isEmpty && hasKey key done then .fail inner .malformed
            else pure (putEntry key value done)) []
        | _ => .fail inner .malformed
      let items : Checked (List Node) :=
        match node with
        | .sequence _ _ items _ _ => pure items
        | _ => .fail inner .malformed
      match NodeType.ofTag node.tag with
      | .sequence => do
        let items ← items
        return .list (← items.mapM each)
      | .mapping => do return .mapping (← entries)
      | .set => do return .set ((← entries).map (·.1))
      | .ordered => do
        let items ← items
        let entries ← items.foldlM (fun done item => do
          match singleEntry? d item with
          | none => .fail inner .malformed
          | some (keyNode, valueNode) =>
            let key ← each keyNode
            if key.canChange then .fail inner .changeableKey
            else if hasKey key done then .fail inner .repeatedKey
            else
              let value ← each valueNode
              pure (putEntry key value done)) []
        return .mapping entries
      | .pairs => do
        let items ← items
        let pairs ← items.mapM fun item =>
          match singleEntry? d item with
          | none => .fail inner .malformed
          | some (keyNode, valueNode) => do
            let key ← each keyNode
            let value ← each valueNode
            pure (Value.tuple [key, value])
        return .list pairs
      | type =>
        let text? := match type, node with
          | .scalar .stamp, .scalar _ text _ _ _ => some text
          | .scalar .stamp, _ => none
          | _, _ => scalarText? d (fuel + 1) node
        match text? with
        | none => .fail depth .malformed
        | some text =>
          match typedValue? d.version type text with
          | some value => .of depth value
          | none => .fail depth .malformed

/-- How deep nodes of a document can be nested: each alias can go as deep as the document. -/
def Document.reach (d : Document) (length : Nat) : Nat :=
  (d.named.length + 1) * (length + 2)

/-- The value of a document. A text without a document has no content. -/
def Document.value (d : Document) (length : Nat) : Except Flaw Value :=
  match d.node with
  | none => .ok .null
  | some node => (nodeValue d (d.reach length) [] false 0 node).toExcept

def read (source : List Char) : Except Flaw Value := do
  let d ← (document false source).1
  d.value source.length

end ElementBundle.Data.Yaml
