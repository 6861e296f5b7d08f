import ElementBundle.Data.Yaml.Content
import ElementBundle.Decimal.Shortest

/-!
# Content in several places

Content with an identity is written in the first place where it stands, with its name, and each
further place has an alias of it. Where the first place has been lost, the next one is the first.
Content that needs a name and has none is given a number.
-/

namespace ElementBundle.Data.Yaml

/-- The entries that are written, with the merged mappings among them. -/
def writtenEntries (entries : List (Entry Content)) (merge : Option (Nat × Content)) :
    List (Entry Content) :=
  let own := entries.filter (·.own)
  match merge with
  | none => own
  | some (place, value) =>
    own.take place ++ { name := none, key := .ofText .merge ['<', '<'], value } :: own.drop place

/-- Gives each place what is written there. The content of identities that have no place yet is
known. The fuel bounds the depth. -/
def settle (known : List (Nat × Content)) : Nat → Content → StateM (List Nat) Content
  | 0, c => return c
  | fuel + 1, c => do
    let seen ← get
    match c with
    | .alias id notes =>
      match seen.contains id, known.lookup id with
      | false, some c => settle known fuel (c.withNotes notes)
      | _, _ => return c
    | c =>
      let id? := c.anchor?.map (·.id)
      if id?.any seen.contains then return .alias (id?.getD 0) c.notes
      else
        set (id?.toList ++ seen)
        match c with
        | .sequence anchor label flow items notes ending =>
          return .sequence anchor label flow (← items.mapM (settle known fuel)) notes ending
        | .mapping anchor label layout flow entries merge notes ending =>
          let entries ← (writtenEntries entries merge).mapM fun e => do
            let key ← settle known fuel e.key
            let value ← settle known fuel e.value
            return { e with key, value }
          return .mapping anchor label layout flow entries none notes ending
        | c => return c

mutual

def Content.depth : Content → Nat
  | .alias .. | .leaf .. => 1
  | .sequence _ _ _ items _ _ => itemDepth items + 1
  | .mapping _ _ _ _ entries merge _ _ => max (entryDepth entries) (mergeDepth merge) + 1

def itemDepth : List Content → Nat
  | [] => 0
  | c :: cs => max c.depth (itemDepth cs)

def entryDepth : List (Entry Content) → Nat
  | [] => 0
  | ⟨_, _, key, value⟩ :: es => max (max key.depth value.depth) (entryDepth es)

def mergeDepth : Option (Nat × Content) → Nat
  | none => 0
  | some (_, c) => c.depth

end

/-- Content with what is written in each place. Each known content is met once on the way down. -/
def Content.settled (known : List (Nat × Content)) (c : Content) : Content :=
  let fuel := known.foldl (fun n (_, c) => n + c.depth) (c.depth + 1)
  ((settle known fuel c).run []).1

/-- A place where content with an identity stands: the first one, or an alias. -/
inductive Occurrence where
  | first (anchor : Anchor)
  | again (id : Nat)
  deriving DecidableEq, Repr

mutual

/-- The places of identities in content, in the order in which they are written. -/
def Content.occurrences : Content → List Occurrence
  | .alias id _ => [.again id]
  | .leaf anchor _ _ _ _ => anchor.toList.map .first
  | .sequence anchor _ _ items _ _ => anchor.toList.map .first ++ itemOccurrences items
  | .mapping anchor _ _ _ entries _ _ _ => anchor.toList.map .first ++ entryOccurrences entries

def itemOccurrences : List Content → List Occurrence
  | [] => []
  | c :: cs => c.occurrences ++ itemOccurrences cs

def entryOccurrences : List (Entry Content) → List Occurrence
  | [] => []
  | ⟨_, _, key, value⟩ :: es => key.occurrences ++ value.occurrences ++ entryOccurrences es

end

def givenName (n : Nat) : List Char :=
  'i' :: 'd' :: Decimal.padded 3 n

/-- Names that are written, and how many have been given. -/
structure Names where
  anchors : List (Nat × Anchor) := []
  written : List (Nat × List Char) := []
  given : Nat := 0

def Names.add (n : Names) : Occurrence → Names
  | .first a =>
    let n := { n with anchors := (a.id, a) :: n.anchors }
    match a.always, a.name with
    | true, some name => { n with written := (a.id, name) :: n.written }
    | _, _ => n
  | .again id =>
    if (n.written.lookup id).isSome then n
    else
      match (n.anchors.lookup id).bind (·.name) with
      | some name => { n with written := (id, name) :: n.written }
      | none => { n with written := (id, givenName (n.given + 1)) :: n.written, given := n.given + 1 }

def Content.names (c : Content) : List (Nat × List Char) :=
  (c.occurrences.foldl Names.add {}).written

end ElementBundle.Data.Yaml
