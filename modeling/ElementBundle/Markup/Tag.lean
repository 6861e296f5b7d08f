import ElementBundle.Text.Blank
import ElementBundle.Text.Word

/-!
# Tags

One tag of markup: an opening tag, a closing tag, or a tag that closes itself. Attribute values in
quotes, and expressions in single braces, may hold any delimiter of the tag. Reading a tag loses
nothing: `Tag.read?_eq_some`.
-/

namespace ElementBundle.Markup

open ElementBundle.Text

/-- A tag, taken apart. The attributes keep their source form. -/
structure Tag where
  closing : Bool
  name : List Char
  attributes : List Char
  selfClosing : Bool
  deriving DecidableEq, Repr

def slashIf (b : Bool) : List Char :=
  if b then ['/'] else []

def Tag.text (t : Tag) : List Char :=
  '<' :: slashIf t.closing ++ t.name ++ t.attributes ++ slashIf t.selfClosing ++ ['>']

inductive AttributeContext where
  | plain
  | quoted (delimiter : Char)
  | braced
  deriving DecidableEq, Repr

/-- Reads attributes up to the end of the tag: the attributes, whether the tag closes itself, and
the rest. Outside quotes and braces the first end mark ends the tag. -/
def readAttributes : AttributeContext → List Char → Option (List Char × Bool × List Char)
  | _, [] => none
  | .plain, c :: s =>
    if c = '>' then some ([], false, s)
    else if c = '/' ∧ s.head? = some '>' then some ([], true, s.tail)
    else if c = '"' ∨ c = '\'' then (readAttributes (.quoted c) s).map fun (a, r) => (c :: a, r)
    else if c = '{' then (readAttributes .braced s).map fun (a, r) => (c :: a, r)
    else if c = '<' ∨ c = '}' then none
    else (readAttributes .plain s).map fun (a, r) => (c :: a, r)
  | .quoted q, c :: s =>
    (readAttributes (if c = q then .plain else .quoted q) s).map fun (a, r) => (c :: a, r)
  | .braced, c :: s =>
    if c = '{' then none
    else (readAttributes (if c = '}' then .plain else .braced) s).map fun (a, r) => (c :: a, r)

def endsName (s : List Char) : Bool :=
  match s with
  | [] => false
  | c :: _ => isBlank c || c == '/' || c == '>'

def readSlash : List Char → Bool × List Char
  | '/' :: s => (true, s)
  | s => (false, s)

def Tag.read? : List Char → Option (Tag × List Char)
  | '<' :: s =>
    let (closing, s) := readSlash s
    match s with
    | c :: s =>
      if c.isAlpha && endsName (s.dropWhile isNameRest) then
        (readAttributes .plain (s.dropWhile isNameRest)).map fun (attributes, selfClosing, rest) =>
          (⟨closing, c :: s.takeWhile isNameRest, attributes, selfClosing⟩, rest)
      else none
    | [] => none
  | _ => none

/-- A tag that closes itself and has a hyphen in its name is written as an opening and a closing tag;
blanks before its slash are dropped. Every other tag stays as it is. -/
def Tag.expanded (t : Tag) : List Char :=
  if t.selfClosing && t.name.contains '-' then
    trimEnd ('<' :: slashIf t.closing ++ t.name ++ t.attributes) ++ '>' :: '<' :: '/' :: t.name ++ ['>']
  else t.text

theorem readAttributes_eq_some {ctx : AttributeContext} {s a rest : List Char} {b : Bool}
    (h : readAttributes ctx s = some (a, b, rest)) : s = a ++ slashIf b ++ '>' :: rest := by
  induction s generalizing ctx a with
  | nil => simp [readAttributes] at h
  | cons c s ih =>
    have step : ∀ ctx', (readAttributes ctx' s).map (fun x => (c :: x.1, x.2)) = some (a, b, rest) →
        c :: s = a ++ slashIf b ++ '>' :: rest := by
      intro ctx' h'
      obtain ⟨⟨a', b', r'⟩, hr, he⟩ := Option.map_eq_some_iff.1 h'
      cases he
      simp [ih hr]
    cases ctx with
    | plain =>
      rw [readAttributes] at h
      split at h
      · cases h
        simp_all [slashIf]
      · split at h
        · rename_i hs
          cases h
          cases s with
          | nil => simp at hs
          | cons d s => simp_all [slashIf]
        · split at h
          · exact step _ h
          · split at h
            · exact step _ h
            · split at h
              · cases h
              · exact step _ h
    | quoted q => exact step _ h
    | braced =>
      rw [readAttributes] at h
      split at h
      · cases h
      · exact step _ h

theorem Tag.read?_eq_some {s rest : List Char} {t : Tag} (h : Tag.read? s = some (t, rest)) :
    s = t.text ++ rest := by
  unfold Tag.read? at h
  split at h
  · rename_i s
    have slash : s = slashIf (readSlash s).1 ++ (readSlash s).2 := by
      unfold readSlash
      split <;> simp [slashIf]
    generalize readSlash s = p at h slash
    obtain ⟨closing, u⟩ := p
    cases u with
    | nil => simp at h
    | cons c u =>
      simp only at h
      split at h
      · obtain ⟨⟨a, b, r⟩, hr, he⟩ := Option.map_eq_some_iff.1 h
        cases he
        have name := List.takeWhile_append_dropWhile (p := isNameRest) (l := u)
        have attrs := readAttributes_eq_some hr
        rw [attrs] at name
        rw [slash]
        conv => lhs; rw [← name]
        simp [Tag.text]
      · cases h
  · cases h

theorem Tag.text_ne_nil (t : Tag) : t.text ≠ [] := by
  simp [Tag.text]

end ElementBundle.Markup
