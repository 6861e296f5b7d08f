import ElementBundle.Proofs.Markup.Parts
import ElementBundle.Proofs.Source.Depth

/-! # Normal form of a block

A block is read in one way as a list of items, and its parts, written out, spell
these items again. Nothing is lost or doubled; the only change is that a tag
which closes itself and has a hyphen in its name is written as two tags. The
parts of the content spell what stands between the first tag and the last one.
-/

namespace ElementBundle.Markup

open ElementBundle.Text ElementBundle.Source

/-! ## Items in normal form -/

/-- Whether a tag counts as one that closes itself and has a hyphen in its name. -/
def Tag.isCustom (t : Tag) : Bool :=
  !t.closing && t.selfClosing && t.name.contains '-'

/-- The text of an item in the normal form of its block. -/
def Item.normal : Item → List Char
  | .tag t => if t.isCustom then t.expanded else t.text
  | item => item.source

theorem Tag.expanded_of_not_isCustom {t : Tag} (hclosing : t.closing = false)
    (h : t.isCustom = false) : t.expanded = t.text := by
  have hself : (t.selfClosing && t.name.contains '-') = false := by
    simpa [Tag.isCustom, hclosing] using h
  rw [Tag.expanded, hself]
  rfl

theorem Tag.source_parts {t : Tag} {nesting : Nat} {parts : List Part}
    (h : t.parts nesting = .ok parts) : parts.flatMap Part.source = (Item.tag t).normal := by
  rw [flatMap_source_tagParts (t.parts_eq_ok h), Item.normal]
  cases hclosing : t.closing with
  | true =>
      have hcustom : t.isCustom = false := by simp [Tag.isCustom, hclosing]
      simp [hcustom]
  | false =>
      cases hcustom : t.isCustom with
      | true => simp
      | false => simp [t.expanded_of_not_isCustom hclosing hcustom]

theorem flatMap_normal_eq_source {items : List Item}
    (h : ∀ t, .tag t ∈ items → t.isCustom = false) :
    items.flatMap Item.normal = items.flatMap Item.source := by
  induction items with
  | nil => rfl
  | cons item items ih =>
      have hitem : item.normal = item.source := by
        cases item with
        | tag t =>
            rw [Item.normal, h t List.mem_cons_self]
            rfl
        | _ => rfl
      rw [List.flatMap_cons, List.flatMap_cons, hitem,
        ih fun t ht => h t (List.mem_cons_of_mem item ht)]

/-! ## One reading -/

theorem Itemized.source_append {afterColon : Bool} {s rest : List Char} {items : List Item}
    (h : Itemized afterColon s items rest) : items.flatMap Item.source ++ rest = s := by
  induction h with
  | nil => rfl
  | cons head tail ih => rw [List.flatMap_cons, List.append_assoc, ih, readItem_eq_ok head]

theorem Itemized.unique {afterColon : Bool} {s rest : List Char} {items items' : List Item}
    (h : Itemized afterColon s items rest) (h' : Itemized afterColon s items' rest) :
    items' = items := by
  have stop : ∀ {afterColon : Bool} {c : Char} {s rest : List Char} {r : ItemRead}
      {items : List Item}, readItem afterColon c s = .ok r →
      Itemized r.item.endsWithColon r.rest items rest → c :: s ≠ rest := by
    intro afterColon c s rest r items head tail heq
    have hlt := readItem_rest_lt head
    have hlength := congrArg List.length tail.source_append
    rw [heq] at hlt
    simp only [List.length_append] at hlength
    omega
  induction h generalizing items' with
  | nil =>
      cases h' with
      | nil => rfl
      | cons head tail => exact absurd rfl (stop head tail)
  | cons head tail ih =>
      cases h' with
      | nil => exact absurd rfl (stop head tail)
      | cons head' tail' =>
          obtain rfl := Except.ok.inj (head.symm.trans head')
          rw [ih tail']

/-! ## Contents and blocks -/

/-- What follows an opening tag spells items in normal form, the last of which closes the block. -/
def Remainder.Normal (afterColon : Bool) (s : List Char) (r : Remainder) : Prop :=
  ∃ inner last, Itemized afterColon s (inner ++ [.tag last]) r.rest ∧ last.closing = true ∧
    r.content.flatMap Part.source = inner.flatMap Item.normal ∧
    r.closing.flatMap Part.source = (Item.tag last).normal

theorem Remainder.Normal.push {afterColon : Bool} {c : Char} {s : List Char} {i : ItemRead}
    {parts : List Part} {r : Remainder} (hi : readItem afterColon c s = .ok i)
    (hparts : parts.flatMap Part.source = i.item.normal)
    (h : r.Normal i.item.endsWithColon i.rest) :
    (r.push i.item parts).Normal afterColon (c :: s) := by
  obtain ⟨inner, last, hitems, hlast, hcontent, hclosing⟩ := h
  refine ⟨i.item :: inner, last, .cons hi hitems, hlast, ?_, hclosing⟩
  rw [Remainder.push, Part.flatMap_source_join, hparts, hcontent, List.flatMap_cons]

theorem normal_readContent {depth : Nat} {afterColon : Bool} {mode : Mode} {s : List Char}
    {r : Remainder} (hdepth : 0 < depth) (h : readContent depth afterColon mode s = .ok r) :
    r.Normal afterColon s := by
  fun_induction readContent depth afterColon mode s generalizing r with
  | case1 => cases h
  | case2 => cases h
  | case3 depth afterColon mode c s i hi t ht ih =>
      obtain ⟨r', hr, rfl⟩ := map_eq_ok h
      refine .push hi ?_ (ih hdepth hr)
      simp [ht, Part.source, Item.normal, Item.source]
  | case4 depth afterColon mode c s i hi t ht ih =>
      obtain ⟨r', hr, rfl⟩ := map_eq_ok h
      have hcolon : i.item.endsWithColon = false := by rw [ht]; rfl
      refine .push hi ?_ (hcolon ▸ ih hdepth hr)
      simp [ht, Part.source, Item.normal, Item.source]
  | case5 depth afterColon mode c s i hi t ht ih =>
      obtain ⟨r', hr, rfl⟩ := map_eq_ok h
      have hcolon : i.item.endsWithColon = false := by rw [ht]; rfl
      refine .push hi ?_ (hcolon ▸ ih hdepth hr)
      simp [ht, Part.source, Item.normal, Item.source]
  | case6 => cases h
  | case7 depth afterColon mode c s i hi t ht parts hp hz =>
      cases h
      have hclosing : t.closing = true := by
        unfold Tag.nesting at hz
        split at hz
        · assumption
        · split at hz <;> omega
      refine ⟨[], t, ?_, hclosing, rfl, t.source_parts hp⟩
      rw [← ht]
      exact .cons hi .nil
  | case8 depth afterColon mode c s i hi t ht parts hp hz ih =>
      obtain ⟨r', hr, rfl⟩ := map_eq_ok h
      have hcolon : i.item.endsWithColon = false := by rw [ht]; rfl
      refine .push hi ?_ (hcolon ▸ ih (by omega) hr)
      rw [ht, t.source_parts hp]

/-- A block consists of one tag that closes itself, or of an opening tag, its content and the tag
that closes it; its parts spell them in normal form. -/
theorem exists_normal_of_readBlock {t : Tag} {content : List Char} {r : BlockRead}
    (hfront : Tag.read? (t.text ++ content) = some (t, content))
    (h : readBlock t content = .ok r) :
    ∃ items, Itemized false (t.text ++ content) (.tag t :: items) r.rest ∧
      r.block.name = t.name ∧
      r.block.parts.flatMap Part.source = (Item.tag t :: items).flatMap Item.normal ∧
      ((t.selfClosing = true ∧ items = [] ∧ r.block.content = []) ∨
        (t.selfClosing = false ∧ ∃ inner last, items = inner ++ [.tag last] ∧
          last.closing = true ∧
          r.block.content.flatMap Part.source = inner.flatMap Item.normal)) := by
  obtain ⟨s, hs⟩ : ∃ s, t.text ++ content = '<' :: s := ⟨_, rfl⟩
  rw [hs] at hfront ⊢
  have hitem := readItem_tag false hfront
  unfold readBlock at h
  split at h
  · cases h
  · rename_i opening hopening
    have htag := t.source_parts hopening
    split at h
    · rename_i hself
      cases h
      refine ⟨[], .cons hitem .nil, rfl, ?_, .inl ⟨hself, rfl, rfl⟩⟩
      simp [Block.parts, htag]
    · rename_i hself
      obtain ⟨r', hr, rfl⟩ := map_eq_ok h
      obtain ⟨inner, last, hitems, hlast, hcontent, hclosing⟩ := normal_readContent Nat.one_pos hr
      have hread : Itemized false ('<' :: s) (.tag t :: (inner ++ [.tag last])) r'.rest :=
        .cons hitem hitems
      refine ⟨inner ++ [.tag last], hread, rfl, ?_,
        .inr ⟨by simpa using hself, inner, last, rfl, hlast, hcontent⟩⟩
      simp [Block.parts, htag, hcontent, hclosing]

/-- The parts of a block spell its source, in which each custom tag is written as two and nothing
else is changed; the parts of its content spell what stands between its first tag and its last. -/
theorem scan_normal {source : List Char} {markup : Bool} {r : Scan}
    (h : scan source markup = .ok r) {front back : List Token} {text : List Char} {block : Block}
    (hr : r.tokens = front ++ .markup text block :: back) :
    ∃ items, Itemized false (text ++ back.flatMap Token.text) items (back.flatMap Token.text) ∧
      (∀ items', Itemized false (text ++ back.flatMap Token.text) items'
        (back.flatMap Token.text) → items' = items) ∧
      text = items.flatMap Item.source ∧
      Balanced (items.filterMap Item.tag?) ∧
      block.parts.flatMap Part.source = items.flatMap Item.normal ∧
      ((∀ t, .tag t ∈ items → t.isCustom = false) → block.parts.flatMap Part.source = text) ∧
      ∃ first, items.head? = some (.tag first) ∧ first.closing = false ∧
        block.name = first.name ∧
        ((first.selfClosing = true ∧ items = [.tag first] ∧ block.content = []) ∨
          (first.selfClosing = false ∧ ∃ inner last,
            items = .tag first :: (inner ++ [.tag last]) ∧ last.closing = true ∧
            block.content.flatMap Part.source = inner.flatMap Item.normal)) := by
  obtain ⟨final, hreads, -⟩ := scan_eq_ok_iff.1 h
  rw [hr] at hreads
  obtain ⟨items, hitems, htext, -, hbalanced⟩ := hreads.blockBalanced
  obtain ⟨mid, hmid⟩ := hreads.drop
  obtain ⟨next, head, -⟩ := hmid.uncons
  obtain ⟨first, content, hopen, hfront, hblock⟩ := head.exists_readBlock
  have hsource : text ++ back.flatMap Token.text = first.text ++ content := readBlock_source hblock
  obtain ⟨tail, htail, hname, hparts, hcontent⟩ := exists_normal_of_readBlock hfront hblock
  obtain rfl : .tag first :: tail = items := hitems.unique (hsource ▸ htail)
  refine ⟨_, hitems, fun _ h' => hitems.unique h', htext, hbalanced, hparts, fun hplain => ?_,
    first, rfl, hopen, hname, ?_⟩
  · rw [htext]
    exact hparts.trans (flatMap_normal_eq_source hplain)
  · rcases hcontent with ⟨hself, rfl, hnil⟩ | ⟨hself, inner, last, rfl, hlast, hinner⟩
    · exact .inl ⟨hself, rfl, hnil⟩
    · exact .inr ⟨hself, inner, last, rfl, hlast, hinner⟩

/-- A custom tag between an expression and a comment. -/
theorem scan_normal_custom :
    let text := "<p x=\"1\">\x7by\x7d<a-b z />\x7b/*c*/\x7d</p>".toList
    let block : Block := ⟨['p'], [.text "<p x=\"1\">".toList],
      [.expression ['y'], .text "<a-b z></a-b>".toList, .comment ['c']], [.text "</p>".toList]⟩
    scan (text ++ [';']) = .ok ⟨[.markup text block, .code [';']], {}⟩ ∧
      ∃ items, Itemized false (text ++ [';']) items [';'] ∧ text = items.flatMap Item.source ∧
        block.parts.flatMap Part.source = items.flatMap Item.normal := by
  intro text block
  have hscan : scan (text ++ [';']) = .ok ⟨[.markup text block, .code [';']], {}⟩ := by
    decide +kernel
  obtain ⟨items, hitems, -, htext, -, hparts, -⟩ :=
    scan_normal hscan (List.nil_append _).symm
  exact ⟨hscan, items, hitems, htext, hparts⟩

end ElementBundle.Markup
