import ElementBundle.Data.Key
import ElementBundle.Data.Yaml.Number
import ElementBundle.Data.Yaml.Scalar.Value

/-!
# Content of a document

Content is what is kept of a document when it is changed and written again: the texts of scalars,
the style of collections, names, tags and comments. How a scalar was quoted is not kept. Content that
stands in several places is written in the first of them, and the others are aliases of it.
-/

namespace ElementBundle.Data.Yaml

/-- The identity of content that can stand in several places. -/
structure Anchor where
  id : Nat
  name : Option (List Char) := none
  /-- Whether the name is written even if the content stands in one place. -/
  always : Bool := false
  deriving DecidableEq, Repr

/-- The type of content: the full text of its tag, and the tag as it is written, if it stays. -/
structure Label where
  tag : List Char
  written : Option Tag := none
  deriving DecidableEq, Repr

/-- The kinds of mappings: ordinary ones, sets, whose entries have no values, and ordered ones, which
are written as sequences. -/
inductive Layout where
  | mapping
  | set
  | ordered
  deriving DecidableEq, Repr

/-- An entry of a mapping. The name is what its key compares as; some keys are like no other. An entry
that is not its own comes from another mapping and is not written. -/
structure Entry (α : Type) where
  name : Option Value
  own : Bool := true
  key : α
  value : α

/-- Content. A collection is in brackets or in a block; one that knows neither is in a block unless
it is empty. A mapping can have another one merged into it, at a place among its entries. -/
inductive Content where
  | alias (id : Nat) (notes : Notes)
  | leaf (anchor : Option Anchor) (label : Label) (text : List Char) (style : Style) (notes : Notes)
  | sequence (anchor : Option Anchor) (label : Label) (flow : Option Bool) (items : List Content)
      (notes : Notes) (ending : List Remark)
  | mapping (anchor : Option Anchor) (label : Label) (layout : Layout) (flow : Option Bool)
      (entries : List (Entry Content)) (merge : Option (Nat × Content)) (notes : Notes)
      (ending : List Remark)

def ScalarType.label (t : ScalarType) : Label := { tag := t.tag }

def Content.ofText (type : ScalarType) (text : List Char) : Content :=
  .leaf none type.label text .plain {}

def Content.null : Content := .ofText .null []

instance : Inhabited Content := ⟨.null⟩

def Content.notes : Content → Notes
  | .alias _ notes | .leaf _ _ _ _ notes | .sequence _ _ _ _ notes _
  | .mapping _ _ _ _ _ _ notes _ => notes

def Content.withNotes (notes : Notes) : Content → Content
  | .alias id _ => .alias id notes
  | .leaf anchor label text style _ => .leaf anchor label text style notes
  | .sequence anchor label flow items _ ending => .sequence anchor label flow items notes ending
  | .mapping anchor label layout flow entries merge _ ending =>
    .mapping anchor label layout flow entries merge notes ending

def Content.withoutEnding : Content → Content
  | .sequence anchor label flow items notes _ => .sequence anchor label flow items notes []
  | .mapping anchor label layout flow entries merge notes _ =>
    .mapping anchor label layout flow entries merge notes []
  | c => c

def Content.anchor? : Content → Option Anchor
  | .alias .. => none
  | .leaf anchor .. | .sequence anchor .. | .mapping anchor .. => anchor

def keepsHeader (label : Label) (style : Style) : Bool :=
  style = .literal || (label.written.isSome && style = .folded)

/-- Content whose place keeps no comments: only the head of a block scalar does. -/
def Content.bare : Content → Content
  | .leaf anchor label text style notes =>
    let header := if keepsHeader label style then notes.header else none
    .leaf anchor label text style { header }
  | c => c

def Content.bareItem (c : Content) : Content :=
  match c with
  | .leaf .. => c.bare
  | c => c.withNotes {}

def foldMark : Char := '\x07'

end ElementBundle.Data.Yaml
