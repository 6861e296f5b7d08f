import ElementBundle.Data.Yaml.Token.Lexer

/-!
# Streams of tokens

A comment belongs to a token. Comments behind a scalar, behind the colon of a value or behind a
closing bracket stay with it; a scalar also has the comments in the lines behind it. All other
comments belong to the token ahead of which they stand.
-/

namespace ElementBundle.Data.Yaml

/-- Tokens, and what is wrong if more of them are asked for. -/
structure Stream where
  tokens : List Token
  flaw : Flaw := .malformed
  deriving DecidableEq, Repr

def takeRemarks : List Item → List Remark × List Item
  | .remark r :: items =>
    let (rs, items) := takeRemarks items
    (r :: rs, items)
  | items => ([], items)

def Kind.claims : Kind → Bool
  | .scalar .. | .value | .flowSequenceEnd | .flowMappingEnd => true
  | _ => false

def Kind.isScalar : Kind → Bool
  | .scalar .. => true
  | _ => false

def remarkTexts (rs : List Remark) : List Char :=
  rs.flatMap fun r => List.replicate r.column ' ' ++ r.text

/-- The comments behind a token that belong to it, as one. Below a scalar they keep their distance. -/
def Token.claimed? (t : Token) : List Remark → Option Remark
  | [] => none
  | r :: rs =>
    if t.kind.claims && t.last == r.line then some { r with text := r.text ++ remarkTexts rs }
    else if t.kind.isScalar then
      some { r with text := List.replicate (r.line - t.last) '\n' ++ remarkTexts (r :: rs) }
    else none

/-- Gives tokens their comments; `ahead` are those that wait for a token. With a flaw behind the
items a token counts only if it is known what follows it. -/
def attach (flaw : Option Flaw) : Nat → List Remark → List Item → Stream
  | 0, _, _ => { tokens := [] }
  | fuel + 1, ahead, items =>
    match items with
    | [] => { tokens := [], flaw := flaw.getD .malformed }
    | .remark r :: items => attach flaw fuel (ahead ++ [r]) items
    | .token t :: items =>
      if !ahead.isEmpty && t.notes.header.isSome then { tokens := [], flaw := .commentedHead }
      else
        let t := { t with notes := { t.notes with ahead } }
        let (rs, rest) := takeRemarks items
        let claimed := t.claimed? rs
        let after := if claimed.isSome then rest else items
        if flaw.isSome && after.isEmpty then { tokens := [], flaw := flaw.getD .malformed }
        else
          let t := { t with notes := { t.notes with behind := claimed <|> t.notes.behind } }
          let stream := attach flaw fuel [] after
          { stream with tokens := t :: stream.tokens }

def Items.bare (items : Items) : Stream :=
  { tokens := items.list.filterMap fun
      | .token t => some t
      | .remark _ => none
    flaw := items.flaw.getD .malformed }

def stream (keeps : Bool) (source : List Char) : Stream :=
  let items := items keeps source
  if keeps then attach items.flaw (items.list.length + 1) [] items.list else items.bare

end ElementBundle.Data.Yaml
