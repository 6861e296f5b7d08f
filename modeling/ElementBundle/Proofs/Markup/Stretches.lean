import ElementBundle.Markup.Template
import ElementBundle.Proofs.Markup.Attributes
import ElementBundle.Proofs.Markup.Normal

/-! # Rewriting in stretches

A source becomes a script in two steps: custom tags are written as two tags, and
then blocks are written as expressions. Either step keeps some stretches of the
text and replaces the others. A character that is kept has an offset in the text
that it comes from (`origin?`), and the line on which it stands changes by the
line feeds of what is replaced in front of it (`dropped`).
-/

namespace ElementBundle.Markup

open ElementBundle.Text ElementBundle.Source

/-! ## Stretches -/

/-- A stretch of a text that is rewritten. -/
inductive Stretch where
  | kept (s : List Char)
  | replaced (old new : List Char)
  deriving DecidableEq, Repr

def Stretch.source : Stretch → List Char
  | .kept s => s
  | .replaced old _ => old

def Stretch.result : Stretch → List Char
  | .kept s => s
  | .replaced _ new => new

def Stretch.taken : Stretch → List Char
  | .kept _ => []
  | .replaced old _ => old

def Stretch.isKept : Stretch → Bool
  | .kept _ => true
  | .replaced .. => false

/-- The offset in the source of the character at an offset of the result, unless it is put in. -/
def origin? : List Stretch → Nat → Option Nat
  | [], _ => none
  | x :: xs, k =>
      if k < x.result.length then if x.isKept then some k else none
      else (origin? xs (k - x.result.length)).map (x.source.length + ·)

/-- What is replaced in front of an offset of the result. -/
def dropped : List Stretch → Nat → List Char
  | [], _ => []
  | x :: xs, k =>
      if k < x.result.length then [] else x.taken ++ dropped xs (k - x.result.length)

theorem mem_dropped {xs : List Stretch} {k : Nat} {c : Char} (h : c ∈ dropped xs k) :
    ∃ old new, .replaced old new ∈ xs ∧ c ∈ old := by
  induction xs generalizing k with
  | nil => cases h
  | cons x xs ih =>
      rw [dropped] at h
      split at h
      · cases h
      · rcases List.mem_append.1 h with htaken | hrest
        · cases x with
          | kept s => cases htaken
          | replaced old new => exact ⟨old, new, List.mem_cons_self, htaken⟩
        · obtain ⟨old, new, hmem, hc⟩ := ih hrest
          exact ⟨old, new, List.mem_cons_of_mem x hmem, hc⟩

theorem newlines_append (s t : List Char) : newlines (s ++ t) = newlines s + newlines t :=
  List.count_append

/-- Where nothing that is put in holds a line feed, a kept character loses the lines that are
replaced in front of it. -/
theorem newlines_take_origin {xs : List Stretch}
    (hnew : ∀ old new, .replaced old new ∈ xs → '\n' ∉ new) {k o : Nat}
    (h : origin? xs k = some o) :
    newlines ((xs.flatMap Stretch.result).take k) + newlines (dropped xs k) =
      newlines ((xs.flatMap Stretch.source).take o) := by
  induction xs generalizing k o with
  | nil => cases h
  | cons x xs ih =>
      have hrest : ∀ old new, .replaced old new ∈ xs → '\n' ∉ new :=
        fun old new hmem => hnew old new (List.mem_cons_of_mem x hmem)
      rw [origin?] at h
      rw [dropped, List.flatMap_cons, List.flatMap_cons]
      split at h
      · rename_i hk
        cases x with
        | kept s =>
            obtain rfl : k = o := Option.some.inj h
            have hle : k ≤ s.length := Nat.le_of_lt hk
            rw [if_pos hk]
            show newlines ((s ++ _).take k) + 0 = newlines ((s ++ _).take k)
            rw [List.take_append_of_le_length hle, List.take_append_of_le_length hle, Nat.add_zero]
        | replaced old new => cases h
      · rename_i hk
        obtain ⟨o', ho', rfl⟩ := Option.map_eq_some_iff.1 h
        have hstretch : newlines x.source = newlines x.result + newlines x.taken := by
          cases x with
          | kept s => rfl
          | replaced old new =>
              have hzero : newlines new = 0 :=
                List.count_eq_zero.2 (hnew old new List.mem_cons_self)
              show newlines old = newlines new + newlines old
              omega
        have htail := ih hrest ho'
        obtain ⟨j, rfl⟩ : ∃ j, k = x.result.length + j := ⟨k - x.result.length, by omega⟩
        rw [Nat.add_sub_cancel_left] at htail
        rw [if_neg hk, List.take_length_add_append, List.take_length_add_append,
          Nat.add_sub_cancel_left, newlines_append, newlines_append, newlines_append]
        omega

/-! ## Blocks as expressions -/

/-- The stretches of a text that is escaped for a template literal. -/
def escapeStretches : List Char → List Stretch
  | [] => []
  | '\\' :: s => .replaced [] ['\\'] :: .kept ['\\'] :: escapeStretches s
  | '`' :: s => .replaced [] ['\\'] :: .kept ['`'] :: escapeStretches s
  | '$' :: '{' :: s => .replaced [] ['\\'] :: .kept ['$', '{'] :: escapeStretches s
  | c :: s => .kept [c] :: escapeStretches s

/-- The stretches of a part that is written into a template literal. -/
def Part.stretches : Part → List Stretch
  | .text s => escapeStretches s
  | .expression s => [.replaced [] ['$'], .kept ('{' :: s ++ ['}'])]
  | .comment s => [.replaced ['{', '/', '*'] ['<', '!', '-', '-'], .kept s,
      .replaced ['*', '/', '}'] ['-', '-', '>']]

/-- The stretches of a block that is written as an expression, over the parts of the block. The
outer tags of a block of the component itself are replaced as a whole. -/
def Renderer.stretches (r : Renderer) (b : Block) : List Stretch :=
  if r.selfTag = some b.name then
    .replaced (b.opening.flatMap Part.source) "this.innerHTML = `".toList ::
      b.content.flatMap Part.stretches ++ [.replaced (b.closing.flatMap Part.source) ['`']]
  else
    .replaced [] (r.helper ++ ['(', '`']) :: b.parts.flatMap Part.stretches ++
      [.replaced [] ['`', ')']]

/-- The text of a token in normal form: a block as its parts spell it. -/
def normalText : Token → List Char
  | .markup _ b => b.parts.flatMap Part.source
  | t => t.text

def Renderer.tokenStretches (r : Renderer) : Token → List Stretch
  | .markup _ b => r.stretches b
  | t => [.kept t.text]

/-- All that is put in when tokens are written as script. -/
def Renderer.marks (r : Renderer) : List (List Char) :=
  [['\\'], ['$'], ['<', '!', '-', '-'], ['-', '-', '>'], r.helper ++ ['(', '`'], ['`', ')'],
    "this.innerHTML = `".toList, ['`']]

theorem source_escapeStretches (s : List Char) :
    (escapeStretches s).flatMap Stretch.source = s := by
  fun_induction escapeStretches s with
  | case1 => rfl
  | case2 s ih | case3 s ih | case4 s ih | case5 c s _ _ _ ih => simp [Stretch.source, ih]

theorem result_escapeStretches (s : List Char) :
    (escapeStretches s).flatMap Stretch.result = escapeTemplate s := by
  fun_induction escapeStretches s with
  | case1 => rfl
  | case2 s ih | case3 s ih | case4 s ih => simp [Stretch.result, escapeTemplate, ih]
  | case5 c s hslash htick hdollar ih =>
      rw [escapeTemplate, List.flatMap_cons, ih]
      · rfl
      · exact hslash
      · exact htick
      · exact hdollar

theorem Part.source_stretches (p : Part) : p.stretches.flatMap Stretch.source = p.source := by
  cases p with
  | text s => exact source_escapeStretches s
  | expression s => simp [Part.stretches, Stretch.source, Part.source]
  | comment s => simp [Part.stretches, Stretch.source, Part.source]

theorem Part.result_stretches (p : Part) : p.stretches.flatMap Stretch.result = p.render := by
  cases p with
  | text s => exact result_escapeStretches s
  | expression s => simp [Part.stretches, Stretch.result, Part.render]
  | comment s => simp [Part.stretches, Stretch.result, Part.render]

theorem source_tokenStretches (r : Renderer) (ts : List Token) :
    (ts.flatMap r.tokenStretches).flatMap Stretch.source = ts.flatMap normalText := by
  have hblock : ∀ b, (r.stretches b).flatMap Stretch.source = b.parts.flatMap Part.source := by
    intro b
    unfold Renderer.stretches
    split <;> simp [Stretch.source, List.flatMap_assoc, Part.source_stretches, Block.parts]
  rw [List.flatMap_assoc]
  congr 1
  funext t
  cases t with
  | markup text b => exact hblock b
  | _ => exact List.append_nil _

theorem result_tokenStretches (r : Renderer) (ts : List Token) :
    (ts.flatMap r.tokenStretches).flatMap Stretch.result = r.tokens ts := by
  have hblock : ∀ b, (r.stretches b).flatMap Stretch.result = r.block b := by
    intro b
    unfold Renderer.stretches Renderer.block
    split <;> simp [Stretch.result, List.flatMap_assoc, Part.result_stretches, renderParts]
  rw [List.flatMap_assoc, Renderer.tokens]
  congr 1
  funext t
  cases t with
  | markup text b => exact hblock b
  | _ => exact List.append_nil _

/-- A part is rewritten by marks in place of others, which take out no line feed. -/
theorem Part.mark_of_mem_stretches (r : Renderer) {p : Part} {old new : List Char}
    (h : .replaced old new ∈ p.stretches) : new ∈ r.marks ∧ '\n' ∉ old := by
  have hescape : ∀ s, .replaced old new ∈ escapeStretches s → old = [] ∧ new = ['\\'] := by
    intro s hs
    fun_induction escapeStretches s with
    | case1 => cases hs
    | case2 s ih | case3 s ih | case4 s ih =>
        simp only [List.mem_cons, Stretch.replaced.injEq, reduceCtorEq, false_or] at hs
        exact hs.elim id ih
    | case5 c s _ _ _ ih =>
        simp only [List.mem_cons, reduceCtorEq, false_or] at hs
        exact ih hs
  cases p with
  | text s =>
      obtain ⟨rfl, rfl⟩ := hescape s h
      simp [Renderer.marks]
  | expression s =>
      simp only [Part.stretches, List.mem_cons, Stretch.replaced.injEq, reduceCtorEq,
        List.not_mem_nil, or_false] at h
      obtain ⟨rfl, rfl⟩ := h
      simp [Renderer.marks]
  | comment s =>
      simp only [Part.stretches, List.mem_cons, Stretch.replaced.injEq, reduceCtorEq,
        List.not_mem_nil, or_false, false_or] at h
      rcases h with ⟨rfl, rfl⟩ | ⟨rfl, rfl⟩ <;> simp [Renderer.marks]

/-- Only marks are put in, and only the outer tags of a block of the component itself are taken out
with their line feeds. -/
theorem Renderer.mark_of_mem_stretches {r : Renderer} {ts : List Token} {old new : List Char}
    (h : .replaced old new ∈ ts.flatMap r.tokenStretches) :
    new ∈ r.marks ∧ ('\n' ∈ old → ∃ text b, .markup text b ∈ ts ∧ r.selfTag = some b.name ∧
      (old = b.opening.flatMap Part.source ∨ old = b.closing.flatMap Part.source)) := by
  obtain ⟨t, ht, hmem⟩ := List.mem_flatMap.1 h
  have hparts : ∀ parts : List Part, .replaced old new ∈ parts.flatMap Part.stretches →
      new ∈ r.marks ∧ '\n' ∉ old := by
    intro parts hp
    obtain ⟨p, -, hp⟩ := List.mem_flatMap.1 hp
    exact p.mark_of_mem_stretches r hp
  cases t with
  | markup text b =>
      simp only [Renderer.tokenStretches, Renderer.stretches] at hmem
      split at hmem
      · rename_i hself
        simp only [List.mem_cons, List.mem_append, List.not_mem_nil, or_false,
          Stretch.replaced.injEq, List.cons_append] at hmem
        rcases hmem with ⟨rfl, rfl⟩ | hmem | ⟨rfl, rfl⟩
        · exact ⟨by simp [Renderer.marks], fun _ => ⟨text, b, ht, hself, .inl rfl⟩⟩
        · obtain ⟨hnew, hold⟩ := hparts _ hmem
          exact ⟨hnew, fun hc => absurd hc hold⟩
        · exact ⟨by simp [Renderer.marks], fun _ => ⟨text, b, ht, hself, .inr rfl⟩⟩
      · simp only [List.mem_cons, List.mem_append, List.not_mem_nil, or_false,
          Stretch.replaced.injEq, List.cons_append] at hmem
        rcases hmem with ⟨rfl, rfl⟩ | hmem | ⟨rfl, rfl⟩
        · exact ⟨by simp [Renderer.marks], fun hc => by cases hc⟩
        · obtain ⟨hnew, hold⟩ := hparts _ hmem
          exact ⟨hnew, fun hc => absurd hc hold⟩
        · exact ⟨by simp [Renderer.marks], fun hc => by cases hc⟩
  | _ => cases List.mem_singleton.1 hmem

/-! ## Custom tags as two tags -/

/-- The text of a tag in front of its slash and its end mark. -/
def Tag.front (t : Tag) : List Char :=
  '<' :: slashIf t.closing ++ t.name ++ t.attributes

def Tag.trailing (t : Tag) : List Char :=
  t.front.drop (trimEnd t.front).length

/-- The end mark of an opening tag, and the closing tag behind it. -/
def Tag.closer (t : Tag) : List Char :=
  '>' :: '<' :: '/' :: t.name ++ ['>']

/-- The stretches of an item that is brought into normal form. -/
def Item.stretches : Item → List Stretch
  | .tag t =>
      if t.isCustom then
        [.kept (trimEnd t.front), .replaced (t.trailing ++ ['/', '>']) t.closer]
      else [.kept t.text]
  | item => [.kept item.source]

theorem trimEnd_append_trailing (t : Tag) : trimEnd t.front ++ t.trailing = t.front := by
  have hsuffix : t.front.reverse.dropWhile isBlank <:+ t.front.reverse := List.dropWhile_suffix _
  have hleading : trimEnd t.front <+: t.front := by
    rw [← List.reverse_suffix]
    simpa [trimEnd, dropEndWhile] using hsuffix
  exact List.prefix_iff_eq_append.1 hleading

theorem Tag.text_of_isCustom {t : Tag} (h : t.isCustom = true) :
    t.text = t.front ++ ['/', '>'] := by
  simp only [Tag.isCustom, Bool.and_eq_true] at h
  simp [Tag.text, Tag.front, slashIf, h.1.2]

theorem Tag.expanded_of_isCustom {t : Tag} (h : t.isCustom = true) :
    t.expanded = trimEnd t.front ++ t.closer := by
  simp only [Tag.isCustom, Bool.and_eq_true] at h
  rw [Tag.expanded, h.1.2, h.2, if_pos (by decide)]
  simp [Tag.front, Tag.closer]

theorem Item.source_stretches (item : Item) :
    item.stretches.flatMap Stretch.source = item.source := by
  cases item with
  | tag t =>
      rw [Item.stretches]
      split
      · rename_i hcustom
        have htext : trimEnd t.front ++ (t.trailing ++ ['/', '>']) = t.text := by
          rw [← List.append_assoc, trimEnd_append_trailing, Tag.text_of_isCustom hcustom]
        simpa [Stretch.source, Item.source] using htext
      · exact List.append_nil _
  | _ => exact List.append_nil _

theorem Item.result_stretches (item : Item) :
    item.stretches.flatMap Stretch.result = item.normal := by
  cases item with
  | tag t =>
      rw [Item.stretches, Item.normal]
      split
      · rename_i hcustom
        rw [Tag.expanded_of_isCustom hcustom]
        simp [Stretch.result]
      · exact List.append_nil _
  | _ => exact List.append_nil _

/-- The stretches of tokens that are brought into normal form: a block is read item by item. -/
inductive Expands : List Token → List Stretch → Prop
  | nil : Expands [] []
  | copied {t : Token} {ts : List Token} {xs : List Stretch} (plain : normalText t = t.text)
      (tail : Expands ts xs) : Expands (t :: ts) (.kept t.text :: xs)
  | block {text : List Char} {b : Block} {ts : List Token} {items : List Item}
      {xs : List Stretch} (text_eq : text = items.flatMap Item.source)
      (items_read : Itemized false (text ++ ts.flatMap Token.text) items (ts.flatMap Token.text))
      (normal_eq : b.parts.flatMap Part.source = items.flatMap Item.normal)
      (tail : Expands ts xs) : Expands (.markup text b :: ts) (items.flatMap Item.stretches ++ xs)

theorem Expands.source {ts : List Token} {xs : List Stretch} (h : Expands ts xs) :
    xs.flatMap Stretch.source = ts.flatMap Token.text := by
  induction h with
  | nil => rfl
  | copied plain tail ih => rw [List.flatMap_cons, List.flatMap_cons, ih]; rfl
  | block text_eq items_read normal_eq tail ih =>
      rw [List.flatMap_append, List.flatMap_assoc, ih, List.flatMap_cons]
      simp only [Item.source_stretches, Token.text, text_eq]

theorem Expands.result {ts : List Token} {xs : List Stretch} (h : Expands ts xs) :
    xs.flatMap Stretch.result = ts.flatMap normalText := by
  induction h with
  | nil => rfl
  | copied plain tail ih => rw [List.flatMap_cons, List.flatMap_cons, ih, plain]; rfl
  | block text_eq items_read normal_eq tail ih =>
      rw [List.flatMap_append, List.flatMap_assoc, ih, List.flatMap_cons]
      simp only [Item.result_stretches, normalText, normal_eq]

theorem exists_expands {mode final : Mode} {s : List Char} {ts : List Token}
    (h : Reads true mode s ts final) : ∃ xs, Expands ts xs := by
  induction h with
  | nil mode => exact ⟨[], .nil⟩
  | @cons mode next final t rest ts head tail ih =>
      obtain ⟨xs, hxs⟩ := ih
      cases t with
      | markup text b =>
          obtain ⟨first, content, -, hfront, hblock⟩ := head.exists_readBlock
          have hsource : text ++ rest = first.text ++ content := readBlock_source hblock
          obtain ⟨items, hitems, -, hparts, -⟩ := exists_normal_of_readBlock hfront hblock
          rw [← hsource] at hitems
          have htext : text = (Item.tag first :: items).flatMap Item.source :=
            List.append_cancel_right hitems.source_append.symm
          rw [← tail.flatMap_text] at hitems
          exact ⟨_, .block htext hitems hparts hxs⟩
      | _ => exact ⟨_, .copied rfl hxs⟩

theorem read?_of_readItem {afterColon : Bool} {c : Char} {s : List Char} {r : ItemRead} {t : Tag}
    (h : readItem afterColon c s = .ok r) (ht : r.item = .tag t) :
    Tag.read? (c :: s) = some (t, r.rest) := by
  unfold readItem at h
  split at h
  · unfold readBraced at h
    split at h
    · cases h
      cases ht
    · obtain ⟨x, -, rfl⟩ := map_eq_ok h
      cases ht
  · split at h
    · split at h
      · cases h
        split at ht
        · cases ht
        · simp [readLineComment] at ht
      · cases h
        unfold readBlockComment at ht
        split at ht <;> cases ht
      · cases h
        cases ht
    · split at h
      · split at h
        · cases h
          unfold readMarkupComment at ht
          split at ht <;> cases ht
        · split at h
          · rename_i hread
            cases h
            cases ht
            exact hread
          · cases h
            cases ht
      · cases h
        cases ht

theorem Itemized.tag_of_mem {afterColon : Bool} {s rest : List Char} {items : List Item} {t : Tag}
    (h : Itemized afterColon s items rest) (ht : .tag t ∈ items) : TagName t.name := by
  induction h with
  | nil => cases ht
  | cons head tail ih =>
      rcases List.mem_cons.1 ht with heq | hmem
      · exact (Tag.read?_spec (read?_of_readItem head heq.symm)).1
      · exact ih hmem

/-- Only closing tags are put in, and only blanks are taken out with the marks of custom tags. -/
theorem Expands.tag_of_mem {ts : List Token} {xs : List Stretch} {old new : List Char}
    (h : Expands ts xs) (hmem : .replaced old new ∈ xs) :
    ∃ t : Tag, t.isCustom = true ∧ t.text <:+: ts.flatMap Token.text ∧ TagName t.name ∧
      old = t.trailing ++ ['/', '>'] ∧ new = t.closer := by
  induction h with
  | nil => cases hmem
  | copied plain tail ih =>
      rcases List.mem_cons.1 hmem with heq | hmem
      · cases heq
      · obtain ⟨t, hcustom, htext, hrest⟩ := ih hmem
        exact ⟨t, hcustom, htext.trans (List.suffix_append _ _).isInfix, hrest⟩
  | block text_eq items_read normal_eq tail ih =>
      rcases List.mem_append.1 hmem with hmem | hmem
      · obtain ⟨item, hitem, hmem⟩ := List.mem_flatMap.1 hmem
        cases item with
        | tag t =>
            rw [Item.stretches] at hmem
            split at hmem
            · rename_i hcustom
              simp only [List.mem_cons, reduceCtorEq, Stretch.replaced.injEq, List.not_mem_nil,
                or_false, false_or] at hmem
              refine ⟨t, hcustom, ?_, items_read.tag_of_mem hitem, hmem⟩
              obtain ⟨front, back, rfl⟩ := List.append_of_mem hitem
              rw [List.flatMap_cons, Token.text, text_eq, List.flatMap_append, List.flatMap_cons,
                List.append_assoc, List.append_assoc, ← List.append_assoc]
              exact List.infix_append _ _ _
            · cases List.mem_singleton.1 hmem
        | _ => cases List.mem_singleton.1 hmem
      · obtain ⟨t, hcustom, htext, hrest⟩ := ih hmem
        exact ⟨t, hcustom, htext.trans (List.suffix_append _ _).isInfix, hrest⟩

end ElementBundle.Markup
