import ElementBundle.Data.Yaml.Cursor
import ElementBundle.Data.Yaml.Flaw

/-!
# Tokens of YAML

A document is a list of tokens: scalars, the marks around and between them, and the starts and ends
of blocks, which follow from indentation. A token carries the comments that belong to it: one behind
it, those in lines of their own ahead of it, and the one in the head of a block scalar.
-/

namespace ElementBundle.Data.Yaml

inductive Style where
  | plain
  | single
  | double
  | literal
  | folded
  deriving DecidableEq, Repr

structure Version where
  major : Nat
  minor : Nat
  deriving DecidableEq, Repr

def Version.usual : Version := ⟨1, 2⟩

/-- The version with more words for truth values and with numbers in base sixty. -/
def Version.old : Version := ⟨1, 1⟩

def Version.isLater (v : Version) : Bool :=
  1 < v.major || (v.major == 1 && 1 < v.minor)

/-- A tag as it is written: a handle, if it has one, and the rest. -/
structure Tag where
  handle : Option (List Char)
  suffix : List Char
  deriving DecidableEq, Repr

/-- The kinds of tokens. A folded scalar has the offsets at which its lines were joined. -/
inductive Kind where
  | streamEnd
  | version (v : Version)
  | handle (name target : List Char)
  | directive
  | documentStart
  | documentEnd
  | blockSequenceStart
  | blockMappingStart
  | blockEnd
  | flowSequenceStart
  | flowSequenceEnd
  | flowMappingStart
  | flowMappingEnd
  | blockEntry
  | flowEntry
  | key
  | value
  | alias (name : List Char)
  | anchor (name : List Char)
  | tag (tag : Tag)
  | scalar (text : List Char) (style : Style) (folds : List Nat)
  deriving DecidableEq, Repr

/-- A comment or blank lines, with the place where they start. -/
structure Remark where
  line : Nat
  column : Nat
  text : List Char
  deriving DecidableEq, Repr

structure Notes where
  behind : Option Remark := none
  ahead : List Remark := []
  header : Option (List Char) := none
  /-- Whether the dashes of a sequence stand in the column of its key, behind which a comment is. -/
  hugs : Bool := false
  deriving DecidableEq, Repr

def Notes.leads (n : Notes) : Bool :=
  !n.ahead.isEmpty || n.header.isSome

def Notes.isEmpty (n : Notes) : Bool :=
  n.behind.isNone && !n.leads

/-- The comments of two places in one. They must not be of the same kind. -/
def Notes.join (n m : Notes) : Except Flaw Notes :=
  if (n.behind.isSome && m.behind.isSome) || (n.leads && m.leads) then .error .crowdedComments
  else
    .ok {
      behind := n.behind <|> m.behind, ahead := n.ahead ++ m.ahead, header := n.header <|> m.header }

/-- A token, with the lines in which it starts and ends. -/
structure Token where
  kind : Kind
  first : Nat
  last : Nat
  notes : Notes := {}
  deriving DecidableEq, Repr

end ElementBundle.Data.Yaml
