import ElementBundle.Proofs.Markup.Parts
import ElementBundle.Source.Scan
import Mathlib.Data.List.TakeWhile

/-! # Two readers of attributes

Attributes are read twice. The reader of tags looks for the end of the tag: it
passes over quoted values, whatever they hold, and over groups in single braces.
The reader of expressions then splits the groups out of the text of the tag: it
counts braces and passes over strings, but knows no quoted values. A group that
holds a brace misleads the first one. A quoted value that holds an opening brace
misleads the second one, and so does a group whose quotes do not close. On all
other attributes they agree.
-/

namespace ElementBundle.Markup

open ElementBundle.Text ElementBundle.Source

/-! ## Chunks of attributes -/

/-- A stretch of attributes. -/
inductive Chunk where
  | plain (c : Char)
  | quoted (q : Char) (body : List Char)
  | group (inside : List Char)
  deriving DecidableEq, Repr

def Chunk.source : Chunk → List Char
  | .plain c => [c]
  | .quoted q body => q :: body ++ [q]
  | .group inside => '{' :: inside ++ ['}']

/-- What a chunk is meant to be in the parts of its tag. -/
def Chunk.part : Chunk → Part
  | .group inside => .expression inside
  | chunk => .text chunk.source

/-- A character that may stand outside of quotes and groups. -/
def isLoose (c : Char) : Bool :=
  !(['<', '>', '"', '\'', '{', '}'].contains c)

/-- A chunk whose characters and quotes are in order, and whose group is of a given kind. -/
def Chunk.Formed (P : List Char → Prop) : Chunk → Prop
  | .plain c => isLoose c = true
  | .quoted q body => (q = '"' ∨ q = '\'') ∧ q ∉ body
  | .group inside => P inside

def Braceless (inside : List Char) : Prop :=
  '{' ∉ inside ∧ '}' ∉ inside

/-- A group as the reader of expressions takes it: it is closed exactly at its end. -/
def Scanned (inside : List Char) : Prop :=
  readExpression 1 none (inside ++ ['}']) = .ok (inside, [])

/-- The reader of expressions passes over a chunk as over what it is meant to be. -/
def Chunk.Agreed : Chunk → Prop
  | .plain _ => True
  | .quoted _ body => '{' ∉ body
  | .group inside => Scanned inside

/-- A letter, and letters, digits and hyphens behind it. -/
def TagName (name : List Char) : Prop :=
  ∃ c more, name = c :: more ∧ c.isAlpha = true ∧ ∀ d ∈ more, isNameRest d = true

/-- Whether a blank, a slash or the end mark follows the name of a tag. -/
def Tag.nameEnds (t : Tag) : Bool :=
  endsName ((t.attributes ++ slashIf t.selfClosing ++ ['>']).dropWhile isNameRest)

/-- In front of a rest, the reader of tags takes the text of a tag up to its end mark. -/
def Tag.ReadWhole (t : Tag) (rest : List Char) : Prop :=
  ∃ t', Tag.read? (t.text ++ rest) = some (t', rest) ∧ t'.text = t.text

/-- The parts of a tag whose attributes are cut into chunks. -/
def Tag.cut (t : Tag) (chunks : List Chunk) : List Part :=
  Part.join (.text ('<' :: slashIf t.closing ++ t.name) :: chunks.map Chunk.part)
    [.text (slashIf t.selfClosing ++ ['>'])]

instance : DecidablePred Braceless := fun s =>
  inferInstanceAs (Decidable ('{' ∉ s ∧ '}' ∉ s))

instance : DecidablePred Scanned := fun s =>
  inferInstanceAs (Decidable (readExpression 1 none (s ++ ['}']) = .ok (s, [])))

instance {P : List Char → Prop} [DecidablePred P] : DecidablePred (Chunk.Formed P)
  | .plain c => inferInstanceAs (Decidable (isLoose c = true))
  | .quoted q body => inferInstanceAs (Decidable ((q = '"' ∨ q = '\'') ∧ q ∉ body))
  | .group inside => inferInstanceAs (Decidable (P inside))

instance : DecidablePred Chunk.Agreed
  | .plain _ => inferInstanceAs (Decidable True)
  | .quoted _ body => inferInstanceAs (Decidable ('{' ∉ body))
  | .group inside => inferInstanceAs (Decidable (Scanned inside))

/-! ## The reader of tags -/

theorem readAttributes_loose {c : Char} (hc : isLoose c = true) {s : List Char}
    (hslash : c = '/' → s.head? ≠ some '>') :
    readAttributes .plain (c :: s) = (readAttributes .plain s).map fun x => (c :: x.1, x.2) := by
  have hne : ∀ d ∈ ['<', '>', '"', '\'', '{', '}'], c ≠ d := by
    rintro d hd rfl
    simp [isLoose, hd] at hc
  simp only [List.forall_mem_cons] at hne
  obtain ⟨hopen, hend, hdouble, hsingle, hleft, hright, -⟩ := hne
  have hself : ¬ (c = '/' ∧ s.head? = some '>') := fun h => hslash h.1 h.2
  rw [readAttributes, if_neg hend, if_neg hself, if_neg (by simp [hdouble, hsingle]),
    if_neg hleft, if_neg (by simp [hopen, hright])]

theorem readAttributes_quoted {q : Char} {body : List Char} (hbody : q ∉ body) (s : List Char) :
    readAttributes (.quoted q) (body ++ q :: s) =
      (readAttributes .plain s).map fun x => (body ++ q :: x.1, x.2) := by
  induction body with
  | nil => rw [List.nil_append, readAttributes, if_pos rfl]; rfl
  | cons c body ih =>
      have hc : c ≠ q := fun h => hbody (h ▸ List.mem_cons_self)
      rw [List.cons_append, readAttributes, if_neg hc,
        ih fun hm => hbody (List.mem_cons_of_mem c hm), Option.map_map]
      rfl

theorem readAttributes_braced {inside : List Char} (h : Braceless inside) (s : List Char) :
    readAttributes .braced (inside ++ s) =
      (readAttributes .braced s).map fun x => (inside ++ x.1, x.2) := by
  induction inside with
  | nil => simp
  | cons c inside ih =>
      have hleft : c ≠ '{' := fun hc => h.1 (hc ▸ List.mem_cons_self)
      have hright : c ≠ '}' := fun hc => h.2 (hc ▸ List.mem_cons_self)
      have htail : Braceless inside :=
        ⟨fun hm => h.1 (List.mem_cons_of_mem c hm), fun hm => h.2 (List.mem_cons_of_mem c hm)⟩
      rw [List.cons_append, readAttributes, if_neg hleft, if_neg hright, ih htail, Option.map_map]
      rfl

/-- A group ends for the reader of tags at its first closing brace. -/
theorem readAttributes_group {inside : List Char} (h : Braceless inside) (s : List Char) :
    readAttributes .plain ('{' :: (inside ++ '}' :: s)) =
      (readAttributes .plain s).map fun x => ('{' :: inside ++ '}' :: x.1, x.2) := by
  have hclose : readAttributes .braced ('}' :: s) =
      (readAttributes .plain s).map fun x => ('}' :: x.1, x.2) := by
    rw [readAttributes, if_neg (by decide), if_pos rfl]
  have hopen : readAttributes .plain ('{' :: (inside ++ '}' :: s)) =
      (readAttributes .braced (inside ++ '}' :: s)).map fun x => ('{' :: x.1, x.2) := by
    rw [readAttributes, if_neg (by decide), if_neg (by simp), if_neg (by decide), if_pos rfl]
  rw [hopen, readAttributes_braced h, hclose, Option.map_map, Option.map_map]
  rfl

theorem readAttributes_nested {inside : List Char} (h : Braceless inside) (s : List Char) :
    readAttributes .plain ('{' :: (inside ++ '{' :: s)) = none := by
  rw [readAttributes, if_neg (by decide), if_neg (by simp), if_neg (by decide), if_pos rfl,
    readAttributes_braced h, readAttributes, if_pos rfl]
  rfl

theorem readAttributes_chunk {p : Chunk} (hp : p.Formed Braceless) {s : List Char}
    (hslash : p = .plain '/' → s.head? ≠ some '>') :
    readAttributes .plain (p.source ++ s) =
      (readAttributes .plain s).map fun x => (p.source ++ x.1, x.2) := by
  cases p with
  | plain c => exact readAttributes_loose hp fun hc => hslash (by rw [hc])
  | quoted q body =>
      have hq : ¬ q = '>' ∧ ¬ (q = '/' ∧ (body ++ q :: s).head? = some '>') := by
        rcases hp.1 with rfl | rfl <;> simp
      have hread : readAttributes .plain (q :: (body ++ q :: s)) =
          (readAttributes (.quoted q) (body ++ q :: s)).map fun x => (q :: x.1, x.2) := by
        rw [readAttributes, if_neg hq.1, if_neg hq.2, if_pos hp.1]
      simp only [Chunk.source, List.cons_append, List.append_assoc, List.nil_append]
      rw [hread, readAttributes_quoted hp.2, Option.map_map]
      rfl
  | group inside =>
      simp only [Chunk.source, List.cons_append, List.append_assoc, List.nil_append]
      exact readAttributes_group hp s

theorem head?_source_ne_end {P : List Char → Prop} {p : Chunk} (hp : p.Formed P) (s : List Char) :
    (p.source ++ s).head? ≠ some '>' := by
  cases p with
  | plain c =>
      intro h
      obtain rfl : c = '>' := by simpa [Chunk.source] using h
      exact absurd (show isLoose '>' = true from hp) (by decide)
  | quoted q body =>
      rcases hp.1 with rfl | rfl <;> simp [Chunk.source]
  | group inside => simp [Chunk.source]

/-- The reader of tags passes over chunks, unless the slash of the tag is taken for one. -/
theorem readAttributes_chunks {ps : List Chunk} (hps : ∀ p ∈ ps, p.Formed Braceless)
    {s : List Char} (hslash : ps.getLast? = some (.plain '/') → s.head? ≠ some '>') :
    readAttributes .plain (ps.flatMap Chunk.source ++ s) =
      (readAttributes .plain s).map fun x => (ps.flatMap Chunk.source ++ x.1, x.2) := by
  induction ps with
  | nil => simp
  | cons p ps ih =>
      have hnext : p = .plain '/' → (ps.flatMap Chunk.source ++ s).head? ≠ some '>' := by
        intro hp
        cases ps with
        | nil => exact hslash (by rw [hp]; rfl)
        | cons p' ps =>
            rw [List.flatMap_cons, List.append_assoc]
            exact head?_source_ne_end (hps p' (by simp)) _
      have htail := ih (fun p' hp' => hps p' (List.mem_cons_of_mem p hp')) (by
        cases ps with
        | nil => simp
        | cons p' ps => simpa [List.getLast?_cons_cons] using hslash)
      rw [List.flatMap_cons, List.append_assoc, readAttributes_chunk (hps p List.mem_cons_self) hnext,
        htail, Option.map_map]
      simp [Function.comp_def]

/-- Attributes whose groups hold no braces are read up to the end mark behind them. -/
theorem exists_readAttributes {ps : List Chunk} (hps : ∀ p ∈ ps, p.Formed Braceless)
    (selfClosing : Bool) (rest : List Char) :
    ∃ a b, readAttributes .plain
      (ps.flatMap Chunk.source ++ (slashIf selfClosing ++ '>' :: rest)) = some (a, b, rest) := by
  have hself : readAttributes .plain ('/' :: '>' :: rest) = some ([], true, rest) := by
    rw [readAttributes, if_neg (by decide), if_pos ⟨rfl, rfl⟩]
    rfl
  have hend : readAttributes .plain ('>' :: rest) = some ([], false, rest) := by
    rw [readAttributes, if_pos rfl]
  cases selfClosing with
  | true =>
      have hread := readAttributes_chunks hps (s := '/' :: '>' :: rest) (by simp)
      rw [hself] at hread
      exact ⟨_, _, hread⟩
  | false =>
      by_cases hslash : ps.getLast? = some (.plain '/')
      · obtain ⟨init, rfl⟩ := List.getLast?_eq_some_iff.1 hslash
        have hinit : ∀ p ∈ init, p.Formed Braceless := fun p hp =>
          hps p (List.mem_append_left _ hp)
        have hread := readAttributes_chunks hinit (s := '/' :: '>' :: rest) (by simp)
        rw [hself] at hread
        rw [List.flatMap_append, List.append_assoc]
        exact ⟨_, _, hread⟩
      · have hread := readAttributes_chunks hps (s := '>' :: rest) fun h => absurd h hslash
        rw [hend] at hread
        exact ⟨_, _, hread⟩

/-! ## Names in front of attributes -/

theorem Tag.read?_named (closing : Bool) {name : List Char} (hname : TagName name)
    (s : List Char) :
    Tag.read? ('<' :: slashIf closing ++ name ++ s) =
      if endsName (s.dropWhile isNameRest) then
        (readAttributes .plain (s.dropWhile isNameRest)).map fun x =>
          (⟨closing, name ++ s.takeWhile isNameRest, x.1, x.2.1⟩, x.2.2)
      else none := by
  obtain ⟨c, more, rfl, hc, hmore⟩ := hname
  have hslash : readSlash (slashIf closing ++ (c :: (more ++ s))) = (closing, c :: (more ++ s)) := by
    cases closing with
    | true => rfl
    | false =>
        have hne : c ≠ '/' := by
          rintro rfl
          exact absurd hc (by decide)
        simp [slashIf, readSlash, hne]
  simp only [List.cons_append, List.append_assoc]
  rw [Tag.read?, hslash]
  simp only [List.dropWhile_append_of_pos hmore, List.takeWhile_append_of_pos hmore, hc,
    Bool.true_and]

/-- A chunk that belongs to the name in front of it. -/
def Chunk.inName : Chunk → Bool
  | .plain c => isNameRest c
  | _ => false

theorem dropWhile_isNameRest_chunks {P : List Char → Prop} {ps : List Chunk}
    (hps : ∀ p ∈ ps, p.Formed P) {s : List Char} (hs : s.head?.any isNameRest = false) :
    (ps.flatMap Chunk.source ++ s).dropWhile isNameRest =
      (ps.dropWhile Chunk.inName).flatMap Chunk.source ++ s := by
  induction ps with
  | nil =>
      cases s with
      | nil => rfl
      | cons c s =>
          have hc : isNameRest c = false := hs
          simp [hc]
  | cons p ps ih =>
      have ih := ih fun p' hp' => hps p' (List.mem_cons_of_mem p hp')
      have hp := hps p List.mem_cons_self
      cases p with
      | plain c =>
          by_cases hc : isNameRest c = true
          · simp [Chunk.source, Chunk.inName, hc, ih]
          · simp [Chunk.source, Chunk.inName, hc]
      | quoted q body =>
          have hq : isNameRest q = false := by
            rcases hp.1 with rfl | rfl <;> decide
          simp [Chunk.source, Chunk.inName, hq]
      | group inside =>
          have hbrace : isNameRest '{' = false := by decide
          simp [Chunk.source, Chunk.inName, hbrace]

/-- What stands behind the end mark of a tag does not matter to the end of its name. -/
theorem endsName_dropWhile (s rest : List Char) :
    endsName ((s ++ '>' :: rest).dropWhile isNameRest) =
      endsName ((s ++ ['>']).dropWhile isNameRest) := by
  induction s with
  | nil =>
      have hend : isNameRest '>' = false := by decide
      simp [hend, endsName]
  | cons c s ih =>
      by_cases hc : isNameRest c = true
      · simpa [hc] using ih
      · simp [hc, endsName]

/-- A tag is read if its name ends and its attributes, from the end of the name on, are read. -/
theorem Tag.exists_read?_iff {t : Tag} (hname : TagName t.name) {P : List Char → Prop}
    {ps : List Chunk} (hps : ∀ p ∈ ps, p.Formed P) {rest s : List Char}
    (htext : t.attributes ++ (slashIf t.selfClosing ++ '>' :: rest) =
      ps.flatMap Chunk.source ++ s)
    (hs : s.head?.any isNameRest = false) (rest' : List Char) :
    (∃ t', Tag.read? (t.text ++ rest) = some (t', rest')) ↔
      t.nameEnds = true ∧ ∃ a b,
        readAttributes .plain ((ps.dropWhile Chunk.inName).flatMap Chunk.source ++ s) =
          some (a, b, rest') := by
  have hread := Tag.read?_named t.closing hname
    (t.attributes ++ (slashIf t.selfClosing ++ '>' :: rest))
  have hends : endsName ((ps.dropWhile Chunk.inName).flatMap Chunk.source ++ s) = t.nameEnds := by
    rw [← dropWhile_isNameRest_chunks hps hs, ← htext, ← List.append_assoc, endsName_dropWhile]
    rfl
  have hspelled : t.text ++ rest = '<' :: slashIf t.closing ++ t.name ++
      (t.attributes ++ (slashIf t.selfClosing ++ '>' :: rest)) := by
    simp [Tag.text]
  rw [hspelled, hread, htext, dropWhile_isNameRest_chunks hps hs, hends]
  cases t.nameEnds with
  | false => simp
  | true =>
      constructor
      · rintro ⟨t', h⟩
        obtain ⟨⟨a, b, r⟩, ha, he⟩ := Option.map_eq_some_iff.1 h
        cases he
        exact ⟨rfl, a, b, ha⟩
      · rintro ⟨-, a, b, ha⟩
        exact ⟨_, by rw [if_pos rfl, ha]; rfl⟩

/-! ## Tags whose groups are expressions -/

theorem Tag.readWhole_iff {t : Tag} {rest : List Char} :
    t.ReadWhole rest ↔ ∃ t', Tag.read? (t.text ++ rest) = some (t', rest) := by
  refine exists_congr fun t' => and_iff_left_of_imp fun h => ?_
  exact List.append_cancel_right (Tag.read?_eq_some h).symm

theorem Chunk.Formed.braceless {P : List Char → Prop} {ps : List Chunk}
    (hps : ∀ p ∈ ps, p.Formed P) (hgroups : ∀ g, .group g ∈ ps → Braceless g) :
    ∀ p ∈ ps, p.Formed Braceless := by
  intro p hp
  have hformed := hps p hp
  cases p with
  | plain c => exact hformed
  | quoted q body => exact hformed
  | group g => exact hgroups g hp

theorem formed_dropWhile {P : List Char → Prop} {ps : List Chunk} (hps : ∀ p ∈ ps, p.Formed P) :
    ∀ p ∈ ps.dropWhile Chunk.inName, p.Formed P :=
  fun p hp => hps p ((List.dropWhile_suffix _).subset hp)

/-- If no group holds a brace, the tag is read up to its end mark. -/
theorem Tag.readWhole_of_braceless {t : Tag} (hname : TagName t.name) {ps : List Chunk}
    (hps : ∀ p ∈ ps, p.Formed Braceless) (hattributes : t.attributes = ps.flatMap Chunk.source)
    (rest : List Char) : t.ReadWhole rest ↔ t.nameEnds = true := by
  have hhead : (slashIf t.selfClosing ++ '>' :: rest).head?.any isNameRest = false := by
    cases t.selfClosing with
    | false =>
        show isNameRest '>' = false
        decide
    | true =>
        show isNameRest '/' = false
        decide
  rw [Tag.readWhole_iff, Tag.exists_read?_iff hname hps (by rw [hattributes]) hhead]
  exact and_iff_left (exists_readAttributes (formed_dropWhile hps) t.selfClosing rest)

section FirstBrace

variable {t : Tag} (hname : TagName t.name) {front : List Chunk}
  (hfront : ∀ p ∈ front, p.Formed Braceless) {inside : List Char} (hinside : Braceless inside)

include hname hfront hinside

/-- If the first brace in a group opens another one, the tag is not read. -/
theorem Tag.read?_of_nested {behind : List Char} {back : List Chunk}
    (hattributes : t.attributes =
      (front ++ .group (inside ++ '{' :: behind) :: back).flatMap Chunk.source)
    (rest : List Char) : Tag.read? (t.text ++ rest) = none := by
  have htext : t.attributes ++ (slashIf t.selfClosing ++ '>' :: rest) =
      front.flatMap Chunk.source ++ '{' :: (inside ++ '{' :: (behind ++ '}' ::
        (back.flatMap Chunk.source ++ (slashIf t.selfClosing ++ '>' :: rest)))) := by
    simp [hattributes, Chunk.source]
  have hbrace : isNameRest '{' = false := by decide
  rw [Option.eq_none_iff_forall_ne_some]
  rintro ⟨t', rest'⟩ hread
  obtain ⟨-, a, b, hattrs⟩ :=
    (Tag.exists_read?_iff hname hfront htext hbrace rest').1 ⟨t', hread⟩
  rw [readAttributes_chunks (formed_dropWhile hfront) (by simp), readAttributes_nested hinside]
    at hattrs
  cases hattrs

/-- If the first brace in a group closes one, the reader of tags ends the group there. -/
theorem Tag.readWhole_of_closed {behind : List Char} {back : List Chunk}
    (hattributes : t.attributes =
      (front ++ .group (inside ++ '}' :: behind) :: back).flatMap Chunk.source)
    (rest : List Char) :
    t.ReadWhole rest ↔
      t.nameEnds = true ∧ ∃ a b, readAttributes .plain
        (behind ++ '}' :: back.flatMap Chunk.source ++ slashIf t.selfClosing ++ '>' :: rest) =
          some (a, b, rest) := by
  have htext : t.attributes ++ (slashIf t.selfClosing ++ '>' :: rest) =
      front.flatMap Chunk.source ++ '{' :: (inside ++ '}' :: (behind ++ '}' ::
        back.flatMap Chunk.source ++ slashIf t.selfClosing ++ '>' :: rest)) := by
    simp [hattributes, Chunk.source]
  have hbrace : isNameRest '{' = false := by decide
  rw [Tag.readWhole_iff, Tag.exists_read?_iff hname hfront htext hbrace,
    readAttributes_chunks (formed_dropWhile hfront) (by simp), readAttributes_group hinside,
    Option.map_map]
  refine and_congr_right fun _ => ⟨?_, ?_⟩
  · rintro ⟨a, b, h⟩
    obtain ⟨⟨a', b', r⟩, hr, he⟩ := Option.map_eq_some_iff.1 h
    cases he
    exact ⟨a', b, hr⟩
  · rintro ⟨a, b, h⟩
    exact ⟨_, b, by rw [h]; rfl⟩

end FirstBrace

/-! ## Chunks of a tag that is read -/

/-- What the reader of tags takes in each of its contexts. -/
def AttributeContext.Takes (s : List Char) : AttributeContext → Prop
  | .plain => ∃ ps : List Chunk, (∀ p ∈ ps, p.Formed Braceless) ∧ s = ps.flatMap Chunk.source
  | .quoted q => ∃ body, q ∉ body ∧ ∃ ps : List Chunk,
      (∀ p ∈ ps, p.Formed Braceless) ∧ s = body ++ q :: ps.flatMap Chunk.source
  | .braced => ∃ inside, Braceless inside ∧ ∃ ps : List Chunk,
      (∀ p ∈ ps, p.Formed Braceless) ∧ s = inside ++ '}' :: ps.flatMap Chunk.source

theorem takes_readAttributes {ctx : AttributeContext} {s a rest : List Char} {b : Bool}
    (h : readAttributes ctx s = some (a, b, rest)) : ctx.Takes a := by
  have plain : ∀ {p : Chunk} {ps : List Chunk}, p.Formed Braceless →
      (∀ p' ∈ ps, p'.Formed Braceless) →
      AttributeContext.Takes (p.source ++ ps.flatMap Chunk.source) .plain :=
    fun hp hps => ⟨_ :: _, List.forall_mem_cons.2 ⟨hp, hps⟩, rfl⟩
  fun_induction readAttributes ctx s generalizing a with
  | case1 => cases h
  | case2 s =>
      cases h
      exact ⟨[], by simp, rfl⟩
  | case3 c s =>
      cases h
      exact ⟨[], by simp, rfl⟩
  | case4 c s hend hself hquote ih =>
      obtain ⟨⟨a', b', r⟩, hr, he⟩ := Option.map_eq_some_iff.1 h
      cases he
      obtain ⟨body, hbody, ps, hps, rfl⟩ := ih hr
      simpa [Chunk.source] using plain (p := .quoted c body) ⟨hquote, hbody⟩ hps
  | case5 s hend hself hquote ih =>
      obtain ⟨⟨a', b', r⟩, hr, he⟩ := Option.map_eq_some_iff.1 h
      cases he
      obtain ⟨inside, hinside, ps, hps, rfl⟩ := ih hr
      simpa [Chunk.source] using plain (p := .group inside) hinside hps
  | case6 => cases h
  | case7 c s hend hself hquote hleft hother ih =>
      obtain ⟨⟨a', b', r⟩, hr, he⟩ := Option.map_eq_some_iff.1 h
      cases he
      obtain ⟨ps, hps, rfl⟩ := ih hr
      have hloose : isLoose c = true := by
        simp only [not_or] at hquote hother
        simp [isLoose, hend, hquote, hleft, hother]
      exact plain (p := .plain c) hloose hps
  | case8 q c s ih =>
      obtain ⟨⟨a', b', r⟩, hr, he⟩ := Option.map_eq_some_iff.1 h
      cases he
      have ih := ih hr
      by_cases hc : c = q
      · rw [if_pos hc] at ih
        obtain ⟨ps, hps, rfl⟩ := ih
        exact ⟨[], by simp, ps, hps, by rw [hc]; rfl⟩
      · rw [if_neg hc] at ih
        obtain ⟨body, hbody, ps, hps, rfl⟩ := ih
        exact ⟨c :: body, by simp [Ne.symm hc, hbody], ps, hps, rfl⟩
  | case9 => cases h
  | case10 c s hleft ih =>
      obtain ⟨⟨a', b', r⟩, hr, he⟩ := Option.map_eq_some_iff.1 h
      cases he
      have ih := ih hr
      by_cases hc : c = '}'
      · rw [if_pos hc] at ih
        obtain ⟨ps, hps, rfl⟩ := ih
        exact ⟨[], by simp [Braceless], ps, hps, by rw [hc]; rfl⟩
      · rw [if_neg hc] at ih
        obtain ⟨inside, hinside, ps, hps, rfl⟩ := ih
        refine ⟨c :: inside, ?_, ps, hps, rfl⟩
        exact ⟨by simp [Ne.symm hleft, hinside.1], by simp [Ne.symm hc, hinside.2]⟩

theorem Tag.read?_spec {s rest : List Char} {t : Tag} (h : Tag.read? s = some (t, rest)) :
    TagName t.name ∧ AttributeContext.Takes t.attributes .plain := by
  unfold Tag.read? at h
  split at h
  · simp only at h
    split at h
    · rename_i c u hu
      split at h
      · rename_i hname
        obtain ⟨⟨a, b, r⟩, hr, he⟩ := Option.map_eq_some_iff.1 h
        cases he
        refine ⟨⟨c, _, rfl, ?_, fun d hd => List.mem_takeWhile_imp hd⟩, takes_readAttributes hr⟩
        simpa using (Bool.and_eq_true_iff.1 hname).1
      · cases h
    · cases h
  · cases h

/-! ## The reader of expressions -/

theorem tagParts_brace {s inside rest : List Char}
    (h : readExpression 1 none s = .ok (inside, rest)) :
    tagParts ('{' :: s) = (tagParts rest).map (Part.push (.expression inside)) := by
  rw [tagParts, if_pos rfl]
  split
  · rename_i hread
    rw [h] at hread
    cases hread
  · rename_i hread
    rw [h] at hread
    cases hread
    rfl

theorem tagParts_char {c : Char} (hc : c ≠ '{') (s : List Char) :
    tagParts (c :: s) = (tagParts s).map (Part.push (.text [c])) := by
  rw [tagParts, if_neg hc]

theorem tagParts_text {w : List Char} (hne : w ≠ []) (hw : '{' ∉ w) (s : List Char) :
    tagParts (w ++ s) = (tagParts s).map (Part.push (.text w)) := by
  induction w with
  | nil => exact absurd rfl hne
  | cons c w ih =>
      have hc : c ≠ '{' := fun h => hw (h ▸ List.mem_cons_self)
      have hw : '{' ∉ w := fun h => hw (List.mem_cons_of_mem c h)
      rw [List.cons_append, tagParts_char hc]
      by_cases hnil : w = []
      · rw [hnil, List.nil_append]
      · rw [ih hnil hw]
        cases tagParts s with
        | error depth => rfl
        | ok parts => exact congrArg Except.ok (Part.push_text_push [c] w parts)

theorem not_mem_of_isLoose {c : Char} (hc : isLoose c = true) : '{' ∉ [c] := by
  intro h
  rw [← List.mem_singleton.1 h] at hc
  exact absurd hc (by decide)

theorem not_mem_quoted {q : Char} (hq : q = '"' ∨ q = '\'') {body : List Char} (hbody : '{' ∉ body) :
    '{' ∉ (Chunk.quoted q body).source := by
  rcases hq with rfl | rfl <;> simp [Chunk.source, hbody]

theorem tagParts_chunk {p : Chunk} (hp : p.Formed Braceless) (hagreed : p.Agreed) (s : List Char) :
    tagParts (p.source ++ s) = (tagParts s).map (Part.push p.part) := by
  cases p with
  | plain c => exact tagParts_text (List.cons_ne_nil c []) (not_mem_of_isLoose hp) s
  | quoted q body => exact tagParts_text (by simp [Chunk.source]) (not_mem_quoted hp.1 hagreed) s
  | group inside =>
      have hread := tagParts_brace (readExpression_of_ok hagreed s)
      simpa [Chunk.source, Chunk.part] using hread

theorem tagParts_chunks {ps : List Chunk} (hps : ∀ p ∈ ps, p.Formed Braceless)
    (hagreed : ∀ p ∈ ps, p.Agreed) (s : List Char) :
    tagParts (ps.flatMap Chunk.source ++ s) =
      (tagParts s).map (Part.join (ps.map Chunk.part)) := by
  induction ps with
  | nil => cases h : tagParts s <;> simp [h, Except.map, Part.join]
  | cons p ps ih =>
      rw [List.forall_mem_cons] at hps hagreed
      rw [List.flatMap_cons, List.append_assoc, tagParts_chunk hps.1 hagreed.1,
        ih hps.2 hagreed.2]
      cases tagParts s <;> rfl

/-! ## Marks

A cut is told from its parts by the characters of the parts with a mark at each
brace of an expression, since joining texts moves no mark. -/

def Part.marks : Part → List (Option Char)
  | .text s => s.map some
  | .expression s | .comment s => none :: s.map some ++ [none]

theorem Part.marks_append (a b : List Char) :
    (Part.text (a ++ b)).marks = (Part.text a).marks ++ (Part.text b).marks :=
  List.map_append

theorem marks_tagParts_text {w s : List Char} (hw : '{' ∉ w) {parts : List Part}
    (h : tagParts (w ++ s) = .ok parts) :
    ∃ rest, tagParts s = .ok rest ∧
      parts.flatMap Part.marks = w.map some ++ rest.flatMap Part.marks := by
  by_cases hnil : w = []
  · subst hnil
    exact ⟨parts, h, rfl⟩
  · rw [tagParts_text hnil hw] at h
    obtain ⟨rest, hrest, rfl⟩ := map_eq_ok h
    exact ⟨rest, hrest, Part.flatMap_push Part.marks_append _ _⟩

theorem marks_tagParts_brace {s : List Char} {parts : List Part}
    (h : tagParts ('{' :: s) = .ok parts) :
    ∃ inside behind rest, readExpression 1 none s = .ok (inside, behind) ∧
      tagParts behind = .ok rest ∧
      parts.flatMap Part.marks = none :: (inside.map some ++ none :: rest.flatMap Part.marks) := by
  cases hread : readExpression 1 none s with
  | error depth =>
      rw [tagParts, if_pos rfl] at h
      split at h
      · cases h
      · rename_i hread'
        rw [hread] at hread'
        cases hread'
  | ok x =>
      rw [tagParts_brace hread] at h
      obtain ⟨rest, hrest, rfl⟩ := map_eq_ok h
      exact ⟨x.1, x.2, rest, rfl, hrest, by
        simp [Part.flatMap_push Part.marks_append, Part.marks]⟩

/-- Marks are apart from characters, so they cut a text in one way only. -/
theorem map_some_append_none_inj {a b : List Char} {s t : List (Option Char)}
    (h : a.map some ++ none :: s = b.map some ++ none :: t) : a = b ∧ s = t := by
  induction a generalizing b with
  | nil =>
      cases b with
      | nil => simpa using h
      | cons c b => simp at h
  | cons c a ih =>
      cases b with
      | nil => simp at h
      | cons d b =>
          simp only [List.map_cons, List.cons_append, List.cons.injEq, Option.some.injEq] at h
          obtain ⟨rfl, rfl⟩ := ih h.2
          exact ⟨by rw [h.1], rfl⟩

/-- If the marks of a cut stand where a chunk wants them, the reader of expressions agrees on it. -/
theorem agreed_of_marks {p : Chunk} (hp : p.Formed Braceless) {s : List Char} {parts : List Part}
    (h : tagParts (p.source ++ s) = .ok parts) {tail : List (Option Char)}
    (hmarks : parts.flatMap Part.marks = p.part.marks ++ tail) :
    p.Agreed ∧ ∃ rest, tagParts s = .ok rest ∧ rest.flatMap Part.marks = tail := by
  have text : '{' ∉ p.source → p.part = .text p.source →
      ∃ rest, tagParts s = .ok rest ∧ rest.flatMap Part.marks = tail := by
    intro hsource hpart
    obtain ⟨rest, hrest, hcut⟩ := marks_tagParts_text hsource h
    rw [hcut, hpart] at hmarks
    exact ⟨rest, hrest, List.append_cancel_left hmarks⟩
  cases p with
  | plain c => exact ⟨trivial, text (not_mem_of_isLoose hp) rfl⟩
  | quoted q body =>
      have hbody : '{' ∉ body := by
        intro hbrace
        obtain ⟨u, v, rfl, hu⟩ := List.eq_append_cons_of_mem hbrace
        have hw : '{' ∉ q :: u := by
          rcases hp.1 with rfl | rfl <;> simp [hu]
        have hsplit : (Chunk.quoted q (u ++ '{' :: v)).source ++ s =
            (q :: u) ++ '{' :: (v ++ q :: s) := by
          simp [Chunk.source]
        rw [hsplit] at h
        obtain ⟨rest, hrest, hcut⟩ := marks_tagParts_text hw h
        obtain ⟨inside, behind, rest', -, -, hcut'⟩ := marks_tagParts_brace hrest
        rw [hcut, hcut'] at hmarks
        simp [Chunk.part, Chunk.source, Part.marks] at hmarks
      exact ⟨hbody, text (not_mem_quoted hp.1 hbody) rfl⟩
  | group inside =>
      have hsplit : (Chunk.group inside).source ++ s = '{' :: (inside ++ '}' :: s) := by
        simp [Chunk.source]
      rw [hsplit] at h
      obtain ⟨inside', behind, rest, hread, hrest, hcut⟩ := marks_tagParts_brace h
      rw [hcut] at hmarks
      have hcuts : inside'.map some ++ none :: rest.flatMap Part.marks =
          inside.map some ++ none :: tail := by
        simpa [Chunk.part, Part.marks] using hmarks
      obtain ⟨rfl, hafter⟩ := map_some_append_none_inj hcuts
      have hbehind : behind = s := by
        have hspelled := readExpression_eq_ok hread
        simpa using hspelled.symm
      rw [hbehind] at hrest
      exact ⟨readExpression_of_ok hread [], rest, hrest, hafter⟩

theorem agreed_of_marks_chunks {ps : List Chunk} (hps : ∀ p ∈ ps, p.Formed Braceless)
    {s : List Char} {parts : List Part}
    (h : tagParts (ps.flatMap Chunk.source ++ s) = .ok parts) {tail : List (Option Char)}
    (hmarks : parts.flatMap Part.marks = (ps.map Chunk.part).flatMap Part.marks ++ tail) :
    ∀ p ∈ ps, p.Agreed := by
  induction ps generalizing parts with
  | nil => simp
  | cons p ps ih =>
      rw [List.forall_mem_cons] at hps ⊢
      rw [List.flatMap_cons, List.append_assoc] at h
      rw [List.map_cons, List.flatMap_cons, List.append_assoc] at hmarks
      obtain ⟨hagreed, rest, hrest, hafter⟩ := agreed_of_marks hps.1 h hmarks
      exact ⟨hagreed, ih hps.2 hrest hafter⟩

/-! ## Cuts of a tag -/

theorem not_mem_name {t : Tag} (hname : TagName t.name) :
    '{' ∉ '<' :: slashIf t.closing ++ t.name := by
  obtain ⟨c, more, hspelled, hc, hmore⟩ := hname
  have hhead : c ≠ '{' := by
    rintro rfl
    exact absurd hc (by decide)
  have htail : '{' ∉ more := fun h => absurd (hmore _ h) (by decide)
  rw [hspelled]
  cases t.closing <;> simp [slashIf, hhead.symm, htail]

theorem tagParts_end (selfClosing : Bool) :
    tagParts (slashIf selfClosing ++ ['>']) = .ok [.text (slashIf selfClosing ++ ['>'])] := by
  have hend := tagParts_text (w := slashIf selfClosing ++ ['>']) (by simp)
    (by cases selfClosing <;> decide) []
  rw [List.append_nil, tagParts] at hend
  exact hend

/-- The reader of expressions cuts a tag as it is meant exactly if it agrees on each chunk. -/
theorem tagParts_text_eq_cut_iff {t : Tag} (hname : TagName t.name) {ps : List Chunk}
    (hps : ∀ p ∈ ps, p.Formed Braceless) (hattributes : t.attributes = ps.flatMap Chunk.source) :
    tagParts t.text = .ok (t.cut ps) ↔ ∀ p ∈ ps, p.Agreed := by
  have htext : t.text = ('<' :: slashIf t.closing ++ t.name) ++
      (ps.flatMap Chunk.source ++ (slashIf t.selfClosing ++ ['>'])) := by
    simp [Tag.text, hattributes]
  rw [htext]
  constructor
  · intro h
    obtain ⟨rest, hrest, hcut⟩ := marks_tagParts_text (not_mem_name hname) h
    have hmarks : (t.cut ps).flatMap Part.marks =
        ('<' :: slashIf t.closing ++ t.name).map some ++ ((ps.map Chunk.part).flatMap Part.marks ++
          (slashIf t.selfClosing ++ ['>']).map some) := by
      rw [Tag.cut, Part.flatMap_join Part.marks_append]
      simp [Part.marks]
    rw [hmarks] at hcut
    exact agreed_of_marks_chunks hps hrest (List.append_cancel_left hcut).symm
  · intro hagreed
    rw [tagParts_text (by simp) (not_mem_name hname), tagParts_chunks hps hagreed, tagParts_end]
    rfl

/-- Trimming a text that ends with chunks takes whole chunks off its end. -/
theorem exists_trimEnd_chunks (head : List Char) {ps : List Chunk}
    (hps : ∀ p ∈ ps, p.Formed Braceless) :
    ∃ w init, w <+: head ∧ init <+: ps ∧
      trimEnd (head ++ ps.flatMap Chunk.source) = w ++ init.flatMap Chunk.source := by
  have keep : ∀ {s : List Char} {c : Char}, isBlank c = false → trimEnd (s ++ [c]) = s ++ [c] := by
    intro s c hc
    simp [trimEnd, dropEndWhile, hc]
  induction ps using List.reverseRecOn with
  | nil =>
      refine ⟨trimEnd head, [], ?_, List.nil_prefix, by simp⟩
      have hsuffix := List.dropWhile_suffix isBlank (l := head.reverse)
      rwa [← List.reverse_prefix, List.reverse_reverse] at hsuffix
  | append_singleton ps p ih =>
      have hp := hps p (by simp)
      have kept : ∀ {s : List Char} {c : Char}, p.source = s ++ [c] → isBlank c = false →
          trimEnd (head ++ (ps ++ [p]).flatMap Chunk.source) =
            head ++ (ps ++ [p]).flatMap Chunk.source := by
        intro s c hsource hc
        have hkeep := keep (s := head ++ ps.flatMap Chunk.source ++ s) hc
        simpa [hsource] using hkeep
      cases p with
      | plain c =>
          by_cases hc : isBlank c = true
          · obtain ⟨w, init, hw, hinit, htrim⟩ := ih fun p' hp' =>
              hps p' (List.mem_append_left _ hp')
            refine ⟨w, init, hw, hinit.trans (List.prefix_append ps _), ?_⟩
            rw [← htrim]
            simp [trimEnd, dropEndWhile, Chunk.source, hc]
          · exact ⟨head, _, List.prefix_rfl, List.prefix_rfl, kept (s := []) rfl (by simpa using hc)⟩
      | quoted q body =>
          have hq : isBlank q = false := by
            rcases hp.1 with rfl | rfl <;> decide
          exact ⟨head, _, List.prefix_rfl, List.prefix_rfl, kept rfl hq⟩
      | group inside =>
          exact ⟨head, _, List.prefix_rfl, List.prefix_rfl, kept (c := '}') rfl (by decide)⟩

theorem exists_tagParts_text {w s : List Char} {parts : List Part} (hw : '{' ∉ w)
    (h : tagParts s = .ok parts) : ∃ parts', tagParts (w ++ s) = .ok parts' := by
  by_cases hnil : w = []
  · exact ⟨parts, by rw [hnil, List.nil_append, h]⟩
  · exact ⟨_, by rw [tagParts_text hnil hw, h]; rfl⟩

/-- The reader of expressions gets through a tag, expanded or not, if it agrees on each chunk. -/
theorem Tag.exists_parts {t : Tag} (hname : TagName t.name) {ps : List Chunk}
    (hps : ∀ p ∈ ps, p.Formed Braceless) (hattributes : t.attributes = ps.flatMap Chunk.source)
    (hagreed : ∀ p ∈ ps, p.Agreed) (nesting : Nat) : ∃ parts, t.parts nesting = .ok parts := by
  have hcut := (tagParts_text_eq_cut_iff hname hps hattributes).2 hagreed
  suffices hparts : ∃ parts, tagParts (if t.closing then t.text else t.expanded) = .ok parts by
    obtain ⟨parts, hparts⟩ := hparts
    exact ⟨parts, by rw [Tag.parts, hparts]⟩
  by_cases hclosing : t.closing = true
  · rw [if_pos hclosing]
    exact ⟨_, hcut⟩
  · rw [if_neg hclosing, Tag.expanded]
    split
    · obtain ⟨w, init, hw, hinit, htrim⟩ :=
        exists_trimEnd_chunks ('<' :: slashIf t.closing ++ t.name) hps
      have hhead : '{' ∉ w := fun h => not_mem_name hname (hw.subset h)
      have htail : '{' ∉ '>' :: '<' :: '/' :: t.name ++ ['>'] := by
        have hspelled := not_mem_name hname
        simp only [List.cons_append, List.mem_cons, List.mem_append, not_or] at hspelled
        simp [hspelled.2.2]
      have hend : tagParts ('>' :: '<' :: '/' :: t.name ++ ['>']) =
          .ok [.text ('>' :: '<' :: '/' :: t.name ++ ['>'])] := by
        have hread := tagParts_text (by simp) htail []
        rwa [List.append_nil, tagParts] at hread
      have hchunks := tagParts_chunks (fun p hp => hps p (hinit.subset hp))
        (fun p hp => hagreed p (hinit.subset hp)) ('>' :: '<' :: '/' :: t.name ++ ['>'])
      rw [hend] at hchunks
      rw [hattributes, htrim]
      simp only [List.append_assoc]
      exact exists_tagParts_text hhead hchunks
    · exact ⟨_, hcut⟩

/-! ## Where the readers agree -/

/-- A tag whose groups are expressions is read up to its end mark if its name ends, as long as no
group holds a brace. With an opening brace first in a group there is no tag, and with a closing one
first the rest of the group is read as attributes. Each tag that is read consists of chunks, and it
is cut along them exactly if no quoted value holds an opening brace and each group is an
expression. -/
theorem readers_agree_iff (t : Tag) (rest : List Char) :
    (∀ ps : List Chunk, TagName t.name → t.attributes = ps.flatMap Chunk.source →
      (∀ p ∈ ps, p.Formed Scanned) →
        ((∀ g, .group g ∈ ps → Braceless g) →
          (t.ReadWhole rest ↔ t.nameEnds = true)) ∧
        ∀ front inside behind back, (∀ g, .group g ∈ front → Braceless g) → Braceless inside →
          (ps = front ++ .group (inside ++ '{' :: behind) :: back →
            Tag.read? (t.text ++ rest) = none) ∧
          (ps = front ++ .group (inside ++ '}' :: behind) :: back →
            (t.ReadWhole rest ↔
              t.nameEnds = true ∧ ∃ a b, readAttributes .plain
                (behind ++ '}' :: back.flatMap Chunk.source ++ slashIf t.selfClosing ++
                  '>' :: rest) = some (a, b, rest)))) ∧
    ∀ s, Tag.read? s = some (t, rest) →
      (∃ ps : List Chunk, (∀ p ∈ ps, p.Formed Braceless) ∧
        t.attributes = ps.flatMap Chunk.source) ∧
      ∀ ps : List Chunk, (∀ p ∈ ps, p.Formed Braceless) →
        t.attributes = ps.flatMap Chunk.source →
          (tagParts t.text = .ok (t.cut ps) ↔ ∀ p ∈ ps, p.Agreed) ∧
          ((∀ p ∈ ps, p.Agreed) → ∀ nesting, ∃ parts, t.parts nesting = .ok parts) := by
  constructor
  · intro ps hname hattributes hps
    constructor
    · intro hgroups
      exact Tag.readWhole_of_braceless hname (Chunk.Formed.braceless hps hgroups) hattributes rest
    · intro front inside behind back hgroups hinside
      constructor
      · rintro rfl
        have hfront := Chunk.Formed.braceless
          (fun p hp => hps p (List.mem_append_left _ hp)) hgroups
        exact Tag.read?_of_nested hname hfront hinside hattributes rest
      · rintro rfl
        have hfront := Chunk.Formed.braceless
          (fun p hp => hps p (List.mem_append_left _ hp)) hgroups
        exact Tag.readWhole_of_closed hname hfront hinside hattributes rest
  · intro s hread
    obtain ⟨hname, hchunks⟩ := Tag.read?_spec hread
    refine ⟨hchunks, fun ps hps hattributes => ⟨?_, fun hagreed => ?_⟩⟩
    · exact tagParts_text_eq_cut_iff hname hps hattributes
    · exact Tag.exists_parts hname hps hattributes hagreed

/-- A tag on which the readers agree; one with a group in a group; and two with a closing brace in a
string, the second of which is read although its groups are mistaken. -/
theorem readers_agree_iff_samples :
    let agreed : List Chunk := [.plain ' ', .plain 'x', .plain '=', .group "f(\"b\")".toList,
      .plain ' ', .quoted '\'' ['>']]
    let nested : List Chunk := [.plain ' ', .group "\x7bb\x7d".toList]
    let closed : List Chunk := [.plain ' ', .group "\"\x7d\"".toList]
    let closedTwice : List Chunk := [.plain ' ', .group "\"\x7d\"".toList, .plain ' ',
      .group "`\"\x7b`".toList]
    let tag (ps : List Chunk) : Tag := ⟨false, ['a'], ps.flatMap Chunk.source, false⟩
    (tag agreed).ReadWhole [] ∧
      tagParts (tag agreed).text = .ok ((tag agreed).cut agreed) ∧
      (∃ parts, (tag agreed).parts 0 = .ok parts) ∧
      Tag.read? ((tag nested).text ++ []) = none ∧
      ¬ (tag closed).ReadWhole [] ∧ (tag closedTwice).ReadWhole [] := by
  intro agreed nested closed closedTwice tag
  have hname : TagName ['a'] := ⟨'a', [], rfl, by decide, by simp⟩
  have hfront : ∀ g, Chunk.group g ∈ [Chunk.plain ' '] → Braceless g := by simp
  obtain ⟨hread, hsplit⟩ := readers_agree_iff (tag agreed) []
  have hagreed := (hread agreed hname rfl (by decide)).1
  have hnested := (((readers_agree_iff (tag nested) []).1 nested hname rfl (by decide)).2
    [.plain ' '] [] "b\x7d".toList [] hfront (by decide)).1
  have hclosed := (((readers_agree_iff (tag closed) []).1 closed hname rfl (by decide)).2
    [.plain ' '] ['"'] ['"'] [] hfront (by decide)).2
  have htwice := (((readers_agree_iff (tag closedTwice) []).1 closedTwice hname rfl
    (by decide)).2 [.plain ' '] ['"'] ['"'] [.plain ' ', .group "`\"\x7b`".toList] hfront (by decide)).2
  have hcut := (hsplit (tag agreed).text (by decide)).2 agreed (by decide) rfl
  refine ⟨?_, hcut.1.2 (by decide), hcut.2 (by decide) 0, hnested rfl, ?_, ?_⟩
  · refine (hagreed ?_).2 (by decide)
    intro g hg
    obtain rfl : g = "f(\"b\")".toList := by simpa [agreed] using hg
    decide
  · have hnone : readAttributes .plain "\"\x7d>".toList = none := by decide
    intro hsome
    obtain ⟨-, a, b, h⟩ := (hclosed rfl).1 hsome
    cases hnone.symm.trans h
  · exact (htwice rfl).2 ⟨by decide, "\"\x7d \x7b`\"\x7b`\x7d".toList, false, by decide⟩

/-- An expression that closes hides its tag from the count of nesting, so that the block around it
ends too early; a quoted brace makes a tag that is read fail. -/
theorem readers_disagree :
    Scanned "\x7bb\x7d".toList ∧ Tag.read? "<a x=\x7b\x7bb\x7d\x7d>".toList = none ∧
      (∃ block, scan "<a><a x=\x7b\x7bb\x7d\x7d>t</a></a>".toList =
        .ok ⟨[.markup "<a><a x=\x7b\x7bb\x7d\x7d>t</a>".toList block, .code "</a>".toList], {}⟩) ∧
      Tag.read? "<a x=\"\x7b\">".toList = some (⟨false, ['a'], " x=\"\x7b\"".toList, false⟩, []) ∧
      tagParts "<a x=\"\x7b\">".toList = .error 1 ∧
      ∀ r, scan "<a x=\"\x7b\"></a>".toList ≠ .ok r := by
  have hscan : scan "<a x=\"\x7b\"></a>".toList =
      .error ⟨⟨1, none⟩, { nesting := some 1, expressionDepth := 1 }⟩ := by decide +kernel
  refine ⟨by decide, by decide, ⟨⟨['a'], [.text "<a>".toList],
    [.text "<a x=".toList, .expression "\x7bb\x7d".toList, .text ">t".toList],
    [.text "</a>".toList]⟩, by decide +kernel⟩, by decide, by decide +kernel, fun r h => ?_⟩
  rw [hscan] at h
  cases h

end ElementBundle.Markup
