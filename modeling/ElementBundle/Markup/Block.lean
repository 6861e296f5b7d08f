import ElementBundle.Markup.Part
import ElementBundle.Markup.Tag
import ElementBundle.Text.Search

/-!
# Markup blocks

A block is one element with all it holds, up to the tag that balances the first. Its parts come in
three groups: those of the opening tag, of the content and of the closing tag. Comments of the script
language inside a block are text, and tags inside them do not count.

The reader takes one item at a time, and an item and the rest make up the text: `readItem_eq_ok`.
-/

namespace ElementBundle.Markup

open ElementBundle.Text

inductive Mode where
  | code
  | lineComment
  | blockComment
  | string (delimiter : Char)
  deriving DecidableEq, Repr

/-- What a scanner is inside of when it stops: the mode, the number of open elements if it is in a
block, and the number of open braces if it is in an expression. -/
structure ScanState where
  mode : Mode := .code
  nesting : Option Nat := none
  expressionDepth : Nat := 0
  deriving DecidableEq, Repr

inductive Item where
  | text (s : List Char)
  | comment (s : List Char)
  | expression (s : List Char)
  | tag (t : Tag)
  deriving DecidableEq, Repr

def Item.source : Item → List Char
  | .text s => s
  | .comment s => ['{', '/', '*'] ++ s ++ ['*', '/', '}']
  | .expression s => '{' :: s ++ ['}']
  | .tag t => t.text

/-- An item, the mode in which it leaves the reader, and the rest. -/
structure ItemRead where
  item : Item
  mode : Mode := .code
  rest : List Char

/-- A comment of the script language up to the end of its line, whose two slashes are read. -/
def readLineComment (s : List Char) : ItemRead :=
  let rest := s.dropWhile (· ≠ '\n')
  { item := .text (['/', '/'] ++ s.takeWhile (· ≠ '\n'))
    mode := if rest.isEmpty then .lineComment else .code
    rest := rest }

/-- A comment of the script language up to its end mark, whose start mark is read. -/
def readBlockComment (s : List Char) : ItemRead :=
  match findFirst? ['*', '/'] s with
  | some (body, rest) => { item := .text (['/', '*'] ++ body ++ ['*', '/']), rest }
  | none => { item := .text (['/', '*'] ++ s), mode := .blockComment, rest := [] }

/-- A comment of the markup language up to its end mark, or to the end of the text. -/
def readMarkupComment (s : List Char) : ItemRead :=
  match findFirst? ['-', '-', '>'] s with
  | some (body, rest) => { item := .text (['<', '!', '-', '-'] ++ body ++ ['-', '-', '>']), rest }
  | none => { item := .text (['<', '!', '-', '-'] ++ s), rest := [] }

/-- A brace that opens an expression, or a comment if a star follows and the comment ends. -/
def readBraced (s : List Char) : Except Nat ItemRead :=
  match (dropLeading? ['/', '*'] s).bind (findFirst? ['*', '/', '}']) with
  | some (body, rest) => .ok { item := .comment body, rest }
  | none => (readExpression 1 none s).map fun (inside, rest) => { item := .expression inside, rest }

/-- Reads the item that starts with a character. Two slashes after a colon start no comment. The
error is the number of open braces of an expression that is not closed. -/
def readItem (afterColon : Bool) (c : Char) (s : List Char) : Except Nat ItemRead :=
  if c = '{' then readBraced s
  else if c = '/' then
    match s with
    | '/' :: s' => .ok (if afterColon then { item := .text [c], rest := s } else readLineComment s')
    | '*' :: s' => .ok (readBlockComment s')
    | _ => .ok { item := .text [c], rest := s }
  else if c = '<' then
    match dropLeading? ['!', '-', '-'] s with
    | some s' => .ok (readMarkupComment s')
    | none =>
      match Tag.read? (c :: s) with
      | some (t, rest) => .ok { item := .tag t, rest }
      | none => .ok { item := .text [c], rest := s }
  else .ok { item := .text [c], rest := s }

theorem readLineComment_source (s : List Char) :
    (readLineComment s).item.source ++ (readLineComment s).rest = ['/', '/'] ++ s := by
  simp [readLineComment, Item.source, List.takeWhile_append_dropWhile]

theorem readBlockComment_source (s : List Char) :
    (readBlockComment s).item.source ++ (readBlockComment s).rest = ['/', '*'] ++ s := by
  unfold readBlockComment
  split
  · rename_i body rest h
    simp [Item.source, findFirst?_append h]
  · simp [Item.source]

theorem readMarkupComment_source (s : List Char) :
    (readMarkupComment s).item.source ++ (readMarkupComment s).rest = ['<', '!', '-', '-'] ++ s := by
  unfold readMarkupComment
  split
  · rename_i body rest h
    simp [Item.source, findFirst?_append h]
  · simp [Item.source]

theorem readBraced_source {s : List Char} {r : ItemRead} (h : readBraced s = .ok r) :
    r.item.source ++ r.rest = '{' :: s := by
  unfold readBraced at h
  split at h
  · rename_i body rest hb
    cases h
    obtain ⟨u, hu, hf⟩ := Option.bind_eq_some_iff.1 hb
    simp [Item.source, dropLeading?_eq_some_iff.1 hu, findFirst?_append hf]
  · obtain ⟨⟨inside, rest⟩, hr, he⟩ := map_eq_ok h
    cases he
    simp [Item.source, readExpression_eq_ok hr]

theorem readItem_eq_ok {afterColon : Bool} {c : Char} {s : List Char} {r : ItemRead}
    (h : readItem afterColon c s = .ok r) : r.item.source ++ r.rest = c :: s := by
  unfold readItem at h
  split at h
  · rename_i hc
    subst hc
    exact readBraced_source h
  · split at h
    · rename_i hc
      subst hc
      split at h
      · rename_i s'
        cases h
        split
        · simp [Item.source]
        · simpa using readLineComment_source s'
      · rename_i s'
        cases h
        simpa using readBlockComment_source s'
      · cases h
        simp [Item.source]
    · split at h
      · rename_i hc
        subst hc
        split at h
        · rename_i s' hs
          cases h
          rw [dropLeading?_eq_some_iff.1 hs]
          simpa using readMarkupComment_source s'
        · split at h
          · rename_i t rest ht
            cases h
            simp [Item.source, Tag.read?_eq_some ht]
          · cases h
            simp [Item.source]
      · cases h
        simp [Item.source]

theorem readItem_source_ne_nil {afterColon : Bool} {c : Char} {s : List Char} {r : ItemRead}
    (h : readItem afterColon c s = .ok r) : r.item.source ≠ [] := by
  unfold readItem at h
  split at h
  · unfold readBraced at h
    split at h
    · cases h
      simp [Item.source]
    · obtain ⟨⟨inside, rest⟩, hr, he⟩ := map_eq_ok h
      cases he
      simp [Item.source]
  · split at h
    · split at h
      · cases h
        split <;> simp [Item.source, readLineComment]
      · cases h
        unfold readBlockComment
        split <;> simp [Item.source]
      · cases h
        simp [Item.source]
    · split at h
      · split at h
        · cases h
          unfold readMarkupComment
          split <;> simp [Item.source]
        · split at h
          · cases h
            exact Tag.text_ne_nil _
          · cases h
            simp [Item.source]
      · cases h
        simp [Item.source]

theorem readItem_rest_lt {afterColon : Bool} {c : Char} {s : List Char} {r : ItemRead}
    (h : readItem afterColon c s = .ok r) : r.rest.length < (c :: s).length := by
  have source := congrArg List.length (readItem_eq_ok h)
  have pos := List.length_pos_iff.2 (readItem_source_ne_nil h)
  simp only [List.length_append] at source
  omega

def Item.endsWithColon : Item → Bool
  | .text s => s.getLast? == some ':'
  | _ => false

inductive BlockCause where
  /-- No tag balances the first one. -/
  | element
  /-- An expression in an attribute is not closed. -/
  | attribute
  /-- An expression in the content is not closed; the text from its brace on. -/
  | expression (source : List Char)
  deriving DecidableEq, Repr

/-- A block without an end, and where the scanner stopped. -/
structure BlockFault where
  cause : BlockCause
  state : ScanState
  deriving DecidableEq, Repr

/-- What follows an opening tag: the source text up to the end of the block, the parts of the content
and of the closing tag, and the rest. -/
structure Remainder where
  source : List Char
  content : List Part
  closing : List Part
  rest : List Char
  deriving DecidableEq, Repr

def Remainder.push (item : Item) (parts : List Part) (r : Remainder) : Remainder :=
  { r with source := item.source ++ r.source, content := Part.join parts r.content }

def Tag.nesting (t : Tag) (depth : Nat) : Nat :=
  if t.closing then depth - 1 else if t.selfClosing then depth else depth + 1

def Tag.parts (t : Tag) (nesting : Nat) : Except BlockFault (List Part) :=
  match tagParts (if t.closing then t.text else t.expanded) with
  | .ok parts => .ok parts
  | .error depth => .error ⟨.attribute, { nesting := some nesting, expressionDepth := depth }⟩

/-- Reads the content of a block in which `depth` elements are open. The mode is the one in which the
last item left the reader. -/
def readContent (depth : Nat) (afterColon : Bool) (mode : Mode) :
    List Char → Except BlockFault Remainder
  | [] => .error ⟨.element, { mode, nesting := some depth }⟩
  | c :: s =>
    match _h : readItem afterColon c s with
    | .error braces =>
      .error ⟨.expression (c :: s), { nesting := some depth, expressionDepth := braces }⟩
    | .ok r =>
      match r.item with
      | .text t =>
        (readContent depth (r.item.endsWithColon) r.mode r.rest).map
          (Remainder.push r.item [.text t])
      | .comment t =>
        (readContent depth false r.mode r.rest).map (Remainder.push r.item [.comment t])
      | .expression t =>
        (readContent depth false r.mode r.rest).map (Remainder.push r.item [.expression t])
      | .tag t =>
        match t.parts (t.nesting depth) with
        | .error e => .error e
        | .ok parts =>
          if t.nesting depth = 0 then .ok ⟨t.text, [], parts, r.rest⟩
          else
            (readContent (t.nesting depth) false r.mode r.rest).map (Remainder.push r.item parts)
termination_by s => s.length
decreasing_by
  all_goals exact readItem_rest_lt _h

/-- A markup block: the name of its outermost element and the three groups of its parts. -/
structure Block where
  name : List Char
  opening : List Part
  content : List Part
  closing : List Part
  deriving DecidableEq, Repr

def Block.parts (b : Block) : List Part :=
  b.opening ++ b.content ++ b.closing

structure BlockRead where
  block : Block
  source : List Char
  rest : List Char
  deriving DecidableEq, Repr

/-- Reads the block that starts with a tag, which is not a closing one. -/
def readBlock (t : Tag) (rest : List Char) : Except BlockFault BlockRead :=
  match t.parts (t.nesting 0) with
  | .error e => .error e
  | .ok opening =>
    if t.selfClosing then .ok ⟨⟨t.name, opening, [], []⟩, t.text, rest⟩
    else
      (readContent 1 false .code rest).map fun r =>
        ⟨⟨t.name, opening, r.content, r.closing⟩, t.text ++ r.source, r.rest⟩

theorem readContent_source {depth : Nat} {afterColon : Bool} {mode : Mode} {s : List Char}
    {r : Remainder} (h : readContent depth afterColon mode s = .ok r) : r.source ++ r.rest = s := by
  fun_induction readContent depth afterColon mode s generalizing r with
  | case1 => cases h
  | case2 => cases h
  | case3 depth afterColon mode c s i hi t ht ih =>
    obtain ⟨r', hr, rfl⟩ := map_eq_ok h
    rw [← readItem_eq_ok hi, ← ih hr]
    simp [Remainder.push]
  | case4 depth afterColon mode c s i hi t ht ih =>
    obtain ⟨r', hr, rfl⟩ := map_eq_ok h
    rw [← readItem_eq_ok hi, ← ih hr]
    simp [Remainder.push]
  | case5 depth afterColon mode c s i hi t ht ih =>
    obtain ⟨r', hr, rfl⟩ := map_eq_ok h
    rw [← readItem_eq_ok hi, ← ih hr]
    simp [Remainder.push]
  | case6 => cases h
  | case7 depth afterColon mode c s i hi t ht parts hp hz =>
    cases h
    rw [← readItem_eq_ok hi, ht]
    simp [Item.source]
  | case8 depth afterColon mode c s i hi t ht parts hp hz ih =>
    obtain ⟨r', hr, rfl⟩ := map_eq_ok h
    rw [← readItem_eq_ok hi, ← ih hr]
    simp [Remainder.push]

theorem readBlock_source {t : Tag} {rest : List Char} {r : BlockRead}
    (h : readBlock t rest = .ok r) : r.source ++ r.rest = t.text ++ rest := by
  unfold readBlock at h
  split at h
  · cases h
  · split at h
    · cases h
      rfl
    · obtain ⟨r', hr, rfl⟩ := map_eq_ok h
      simp [← readContent_source hr]

theorem readBlock_source_ne_nil {t : Tag} {rest : List Char} {r : BlockRead}
    (h : readBlock t rest = .ok r) : r.source ≠ [] := by
  unfold readBlock at h
  split at h
  · cases h
  · split at h
    · cases h
      exact t.text_ne_nil
    · obtain ⟨r', hr, rfl⟩ := map_eq_ok h
      simp [t.text_ne_nil]

end ElementBundle.Markup
