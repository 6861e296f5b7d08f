import ElementBundle.Proofs.Markup.Balance
import ElementBundle.Proofs.Source.Calculus
import Mathlib.Logic.Relation

/-! # The scanner, one character at a time

The readers take whole comments, strings and expressions at once, so they do not
show what the counters are in between. `Point.step` goes through a text one
character at a time, in loops that share the same registers, and counts in
integers: nothing keeps the number of open elements from falling below zero but
the order in which tags are met. `Point.Sound` is what every step keeps.
-/

namespace ElementBundle.Source

open ElementBundle.Text ElementBundle.Markup

/-! ## Points and steps -/

/-- What a scanner remembers: whether it is in a block and how many elements are open there, what it
is inside of, and how many braces of an expression are open. -/
structure Registers where
  inBlock : Bool := false
  nesting : Int := 0
  mode : Mode := .code
  braces : Int := 0
  deriving DecidableEq, Repr

/-- What a scanner goes through: script, the content of a block, the text of a tag, or an expression
in one of the last two. A block without an end makes it fail. -/
inductive Loop where
  | script (afterColon : Bool)
  | content (afterColon : Bool)
  | tag
  | expression
  | failed
  deriving DecidableEq, Repr

/-- One point of a run. The text of a tag is gone through by itself; what follows the tag is then
kept outside. -/
structure Point where
  loop : Loop
  registers : Registers := {}
  rest : List Char
  outer : Option (List Char) := none
  deriving DecidableEq, Repr

/-- One character of a comment. The line feed that ends a line comment is left over. -/
def Registers.stepComment (g : Registers) (c : Char) (s : List Char) : Registers × List Char :=
  if g.mode = .lineComment then
    if c = '\n' then ({ g with mode := .code }, c :: s) else (g, s)
  else
    match dropLeading? ['*', '/'] (c :: s) with
    | some s' => ({ g with mode := .code }, s')
    | none => (g, s)

/-- One character of a string, or two if the first is a backslash. -/
def Registers.stepString (g : Registers) (q c : Char) (s : List Char) : Registers × List Char :=
  if c = '\\' then (g, s.drop 1)
  else if c = q then ({ g with mode := .code }, s)
  else (g, s)

/-- One step through code, with the mark in front of it. Where a block starts, its text is left
over. -/
def Registers.stepCode (g : Registers) (c : Char) (s : List Char) : Option Opener → Point
  | some .lineComment => ⟨.script false, { g with mode := .lineComment }, s.drop 1, none⟩
  | some .blockComment => ⟨.script false, { g with mode := .blockComment }, s.drop 1, none⟩
  | some .string => ⟨.script false, { g with mode := .string c }, s, none⟩
  | some (.markup _ _) => ⟨.content false, { g with inBlock := true, nesting := 0 }, c :: s, none⟩
  | none => ⟨.script (c == ':'), g, s, none⟩

def Registers.stepScript (markup afterColon : Bool) (g : Registers) (c : Char) (s : List Char) :
    Point :=
  match g.mode with
  | .lineComment | .blockComment => ⟨.script false, (g.stepComment c s).1, (g.stepComment c s).2, none⟩
  | .string q => ⟨.script false, (g.stepString q c s).1, (g.stepString q c s).2, none⟩
  | .code => g.stepCode c s (opener? markup afterColon c s)

/-- One step through the content of a block, outside of comments. -/
def Registers.stepItem (afterColon : Bool) (g : Registers) (c : Char) (s : List Char) : Point :=
  if c = '{' then
    match (dropLeading? ['/', '*'] s).bind (findFirst? ['*', '/', '}']) with
    | some (_, rest) => ⟨.content false, g, rest, none⟩
    | none => ⟨.expression, { g with braces := 0 }, c :: s, none⟩
  else if c = '/' then
    match s with
    | '/' :: s' =>
      if afterColon then ⟨.content false, g, s, none⟩
      else ⟨.content false, { g with mode := .lineComment }, s', none⟩
    | '*' :: s' => ⟨.content false, { g with mode := .blockComment }, s', none⟩
    | _ => ⟨.content false, g, s, none⟩
  else if c = '<' then
    match dropLeading? ['!', '-', '-'] s with
    | some s' => ⟨.content false, g, ((findFirst? ['-', '-', '>'] s').map Prod.snd).getD [], none⟩
    | none =>
      match Tag.read? (c :: s) with
      | some (t, rest) =>
        ⟨.tag, { g with nesting := g.nesting + t.weight }, if t.closing then t.text else t.expanded,
          some rest⟩
      | none => ⟨.content false, g, s, none⟩
  else ⟨.content (c == ':'), g, s, none⟩

def Registers.stepContent (afterColon : Bool) (g : Registers) (c : Char) (s : List Char) : Point :=
  match g.mode with
  | .lineComment | .blockComment =>
    ⟨.content false, (g.stepComment c s).1, (g.stepComment c s).2, none⟩
  | _ => g.stepItem afterColon c s

/-- One step through an expression. It ends with the brace that leaves none open. -/
def Registers.stepExpression (g : Registers) (c : Char) (s : List Char)
    (outer : Option (List Char)) : Point :=
  match g.mode with
  | .string q => ⟨.expression, (g.stepString q c s).1, (g.stepString q c s).2, outer⟩
  | _ =>
    if isQuote c then ⟨.expression, { g with mode := .string c }, s, outer⟩
    else if c = '{' then ⟨.expression, { g with braces := g.braces + 1 }, s, outer⟩
    else if c = '}' then
      if g.braces - 1 = 0 then
        ⟨if outer.isNone then .content false else .tag, { g with braces := 0 }, s, outer⟩
      else ⟨.expression, { g with braces := g.braces - 1 }, s, outer⟩
    else ⟨.expression, g, s, outer⟩

/-- One step. There is none from the end of the script, and none after a failure. -/
def Point.step (markup : Bool) (p : Point) : Option Point :=
  let g := p.registers
  match p.loop, p.rest with
  | .script _, [] => none
  | .script afterColon, c :: s => some (g.stepScript markup afterColon c s)
  | .content _, [] => some { p with loop := .failed }
  | .content afterColon, c :: s => some (g.stepContent afterColon c s)
  | .tag, [] =>
    if g.nesting = 0 then
      some ⟨.script false, { g with inBlock := false, nesting := 0, braces := 0 }, p.outer.getD [], none⟩
    else some ⟨.content false, g, p.outer.getD [], none⟩
  | .tag, c :: s =>
    if c = '{' then some { p with loop := .expression, registers := { g with braces := 0 } }
    else some { p with rest := s }
  | .expression, [] => some { p with loop := .failed, registers := { g with mode := .code } }
  | .expression, c :: s => some (g.stepExpression c s p.outer)
  | .failed, _ => none

/-- A point is reached from another in some steps. -/
def Reaches (markup : Bool) : Point → Point → Prop :=
  Relation.ReflTransGen fun p p' => p.step markup = some p'

def Point.start (source : List Char) : Point :=
  { loop := .script false, rest := source }

/-! ## What every step keeps -/

/-- In script nothing is open. In a block no more elements were closed than opened, and none is open
only at the tag with which the block starts or at the one with which it ends. -/
def Point.Sound (p : Point) : Prop :=
  let g := p.registers
  match p.loop with
  | .script _ => g.inBlock = false ∧ g.nesting = 0
  | .content _ => g.inBlock = true ∧ (0 < g.nesting ∨ g.nesting = 0 ∧ g.mode = .code ∧
      ∃ t rest, Tag.read? p.rest = some (t, rest) ∧ t.closing = false)
  | .expression => g.inBlock = true ∧ 0 ≤ g.nesting ∧ (p.outer = none → 0 < g.nesting)
  | .tag => g.inBlock = true ∧ 0 ≤ g.nesting ∧ p.outer.isSome = true
  | .failed => g.inBlock = true ∧ 0 ≤ g.nesting

theorem Registers.stepComment_nesting (g : Registers) (c : Char) (s : List Char) :
    (g.stepComment c s).1.inBlock = g.inBlock ∧ (g.stepComment c s).1.nesting = g.nesting := by
  unfold Registers.stepComment
  split
  · split <;> exact ⟨rfl, rfl⟩
  · split <;> exact ⟨rfl, rfl⟩

theorem Registers.stepString_nesting (g : Registers) (q c : Char) (s : List Char) :
    (g.stepString q c s).1.inBlock = g.inBlock ∧ (g.stepString q c s).1.nesting = g.nesting := by
  unfold Registers.stepString
  split
  · exact ⟨rfl, rfl⟩
  · split <;> exact ⟨rfl, rfl⟩

theorem Registers.sound_stepScript {markup afterColon : Bool} {g : Registers} {c : Char}
    {s : List Char} (hblock : g.inBlock = false) (hzero : g.nesting = 0) :
    (g.stepScript markup afterColon c s).Sound := by
  unfold Registers.stepScript
  have hcomment := g.stepComment_nesting c s
  split
  · exact ⟨hcomment.1.trans hblock, hcomment.2.trans hzero⟩
  · exact ⟨hcomment.1.trans hblock, hcomment.2.trans hzero⟩
  · rename_i q _
    have hstring := g.stepString_nesting q c s
    exact ⟨hstring.1.trans hblock, hstring.2.trans hzero⟩
  · rename_i hmode
    unfold Registers.stepCode
    split
    · exact ⟨hblock, hzero⟩
    · exact ⟨hblock, hzero⟩
    · exact ⟨hblock, hzero⟩
    · rename_i t rest ho
      obtain ⟨h, -⟩ | ⟨h, -⟩ | ⟨h, -⟩ | ⟨t', rest', h, -, hopen, hread⟩ := opener?_cases ho
      · cases h
      · cases h
      · cases h
      · exact ⟨rfl, .inr ⟨rfl, hmode, t', rest', hread, hopen⟩⟩
    · exact ⟨hblock, hzero⟩

/-- Where an element is open, no tag brings the count below zero. Where none is open, the block is
about to start, and it starts with no closing tag. -/
theorem Registers.sound_stepItem {afterColon : Bool} {g : Registers} {c : Char} {s : List Char}
    (hblock : g.inBlock = true)
    (h : 0 < g.nesting ∨ g.nesting = 0 ∧
      ∃ t rest, Tag.read? (c :: s) = some (t, rest) ∧ t.closing = false) :
    (g.stepItem afterColon c s).Sound := by
  rcases h with hpos | ⟨hzero, t, rest, hread, hopen⟩
  · unfold Registers.stepItem
    split
    · split
      · exact ⟨hblock, .inl hpos⟩
      · exact ⟨hblock, Int.le_of_lt hpos, fun _ => hpos⟩
    · split
      · split
        · split <;> exact ⟨hblock, .inl hpos⟩
        · exact ⟨hblock, .inl hpos⟩
        · exact ⟨hblock, .inl hpos⟩
      · split
        · split
          · exact ⟨hblock, .inl hpos⟩
          · split
            · rename_i t _ _
              have hweight : -1 ≤ t.weight := by
                unfold Tag.weight
                split <;> (try split) <;> omega
              refine ⟨hblock, ?_, rfl⟩
              show 0 ≤ g.nesting + t.weight
              omega
            · exact ⟨hblock, .inl hpos⟩
        · exact ⟨hblock, .inl hpos⟩
  · have hc : c = '<' := by
      have htext := Tag.read?_eq_some hread
      simp only [Tag.text, List.cons_append, List.cons.injEq] at htext
      exact htext.1
    subst hc
    have hweight : 0 ≤ t.weight := by
      unfold Tag.weight
      rw [if_neg (by simp [hopen])]
      split <;> omega
    simp only [Registers.stepItem, dropLeading?_comment_of_tag hread, hread]
    refine ⟨hblock, ?_, rfl⟩
    show 0 ≤ g.nesting + t.weight
    omega

theorem Registers.sound_stepContent {afterColon : Bool} {g : Registers} {c : Char}
    {s : List Char} (h : Point.Sound ⟨.content afterColon, g, c :: s, none⟩) :
    (g.stepContent afterColon c s).Sound := by
  obtain ⟨hblock, hnesting⟩ := h
  have hcomment := g.stepComment_nesting c s
  have hopened : g.mode ≠ .code → 0 < g.nesting := by
    intro hmode
    rcases hnesting with hpos | ⟨-, hcode, -⟩
    · exact hpos
    · exact absurd hcode hmode
  unfold Registers.stepContent
  split
  · rename_i hmode
    exact ⟨hcomment.1.trans hblock, .inl (hcomment.2 ▸ hopened (by simp [hmode]))⟩
  · rename_i hmode
    exact ⟨hcomment.1.trans hblock, .inl (hcomment.2 ▸ hopened (by simp [hmode]))⟩
  · refine Registers.sound_stepItem hblock ?_
    rcases hnesting with hpos | ⟨hzero, -, htag⟩
    · exact .inl hpos
    · exact .inr ⟨hzero, htag⟩

theorem Registers.sound_stepExpression {g : Registers} {c : Char} {s : List Char}
    {outer : Option (List Char)} (h : Point.Sound ⟨.expression, g, c :: s, outer⟩) :
    (g.stepExpression c s outer).Sound := by
  obtain ⟨hblock, hnonneg, hpos⟩ := h
  unfold Registers.stepExpression
  split
  · rename_i q _
    have hstring := g.stepString_nesting q c s
    exact ⟨hstring.1.trans hblock, hstring.2 ▸ hnonneg, fun ho => hstring.2 ▸ hpos ho⟩
  · split
    · exact ⟨hblock, hnonneg, hpos⟩
    · split
      · exact ⟨hblock, hnonneg, hpos⟩
      · split
        · split
          · cases outer with
            | none => exact ⟨hblock, .inl (hpos rfl)⟩
            | some text => exact ⟨hblock, hnonneg, rfl⟩
          · exact ⟨hblock, hnonneg, hpos⟩
        · exact ⟨hblock, hnonneg, hpos⟩

theorem Point.Sound.step {markup : Bool} {p p' : Point} (h : p.Sound)
    (hstep : p.step markup = some p') : p'.Sound := by
  obtain ⟨loop, g, rest, outer⟩ := p
  cases loop with
  | script afterColon =>
      cases rest with
      | nil => cases hstep
      | cons c s =>
          cases hstep
          exact Registers.sound_stepScript h.1 h.2
  | content afterColon =>
      cases rest with
      | nil =>
          cases hstep
          obtain ⟨hblock, hpos | ⟨-, -, t, rest, hread, -⟩⟩ := h
          · exact ⟨hblock, Int.le_of_lt hpos⟩
          · cases hread
      | cons c s =>
          cases hstep
          exact Registers.sound_stepContent h
  | tag =>
      obtain ⟨hblock, hnonneg, houter⟩ := h
      cases rest with
      | nil =>
          simp only [Point.step] at hstep
          split at hstep
          · cases hstep
            exact ⟨rfl, rfl⟩
          · rename_i hne
            cases hstep
            refine ⟨hblock, .inl ?_⟩
            show 0 < g.nesting
            have hle : 0 ≤ g.nesting := hnonneg
            omega
      | cons c s =>
          simp only [Point.step] at hstep
          split at hstep
          · cases hstep
            exact ⟨hblock, hnonneg, fun hnone => absurd houter (by simp [show outer = none from hnone])⟩
          · cases hstep
            exact ⟨hblock, hnonneg, houter⟩
  | expression =>
      cases rest with
      | nil =>
          cases hstep
          exact ⟨h.1, h.2.1⟩
      | cons c s =>
          cases hstep
          exact Registers.sound_stepExpression h
  | failed => cases hstep

theorem Reaches.sound {markup : Bool} {p p' : Point} (h : Reaches markup p p') (hp : p.Sound) :
    p'.Sound := by
  induction h with
  | refl => exact hp
  | tail _ hstep ih => exact ih.step hstep

/-- At a sound point the number of open elements is not negative, and zero outside of blocks. -/
theorem Point.Sound.nesting {p : Point} (h : p.Sound) :
    0 ≤ p.registers.nesting ∧ (p.registers.inBlock = false → p.registers.nesting = 0) := by
  obtain ⟨loop, g, rest, outer⟩ := p
  cases loop with
  | script afterColon =>
      have hzero : g.nesting = 0 := h.2
      exact ⟨Int.le_of_eq hzero.symm, fun _ => hzero⟩
  | content afterColon =>
      obtain ⟨hblock, hnesting⟩ := h
      refine ⟨?_, fun hout => absurd (hout.symm.trans hblock) (by decide)⟩
      rcases hnesting with hpos | ⟨hzero, -⟩
      · exact Int.le_of_lt hpos
      · exact Int.le_of_eq hzero.symm
  | tag => exact ⟨h.2.1, fun hout => absurd (hout.symm.trans h.1) (by decide)⟩
  | expression => exact ⟨h.2.1, fun hout => absurd (hout.symm.trans h.1) (by decide)⟩
  | failed => exact ⟨h.2, fun hout => absurd (hout.symm.trans h.1) (by decide)⟩

/-- At every point of a run the number of open elements is not negative, and zero outside of
blocks. -/
theorem Reaches.nesting {markup : Bool} {source : List Char} {p : Point}
    (h : Reaches markup (.start source) p) :
    0 ≤ p.registers.nesting ∧ (p.registers.inBlock = false → p.registers.nesting = 0) :=
  (h.sound ⟨rfl, rfl⟩).nesting

/-- A run has one course: all its points come before the last one. -/
theorem Reaches.of_last {markup : Bool} {p q last : Point} (hq : Reaches markup p q)
    (hlast : Reaches markup p last) (hstop : last.step markup = none) : Reaches markup q last := by
  induction hq with
  | refl => exact hlast
  | tail _ hstep ih =>
      rcases Relation.ReflTransGen.cases_head ih with rfl | ⟨next, hnext, hrest⟩
      · rw [hstop] at hstep
        cases hstep
      · obtain rfl := Option.some.inj (hstep.symm.trans hnext)
        exact hrest

end ElementBundle.Source
