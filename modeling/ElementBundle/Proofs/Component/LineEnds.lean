import ElementBundle.Proofs.Component.Declared
import ElementBundle.Proofs.Component.Edit
import ElementBundle.Proofs.Component.Outcome
import ElementBundle.Proofs.Markup.Parts
import ElementBundle.Proofs.Source.Depth

/-! # Line ends of a compiled component

The characters of a compiled component come from its source or from fixed texts. A source is read
with line feeds only, so no carriage return gets into what is compiled from it.
-/

namespace ElementBundle.Text

theorem trimEnd_subset (s : List Char) : trimEnd s ⊆ s := by
  intro x hx
  have hmem := List.mem_reverse.1 hx
  exact List.mem_reverse.1 ((List.dropWhile_sublist _).mem hmem)

theorem mem_of_mem_intercalate {x : Char} {sep : List Char} {items : List (List Char)}
    (h : x ∈ sep.intercalate items) : x ∈ sep ∨ ∃ item ∈ items, x ∈ item := by
  induction items with
  | nil => simp [List.intercalate] at h
  | cons item items ih =>
    cases items with
    | nil => exact .inr ⟨item, by simp, by simpa [List.intercalate] using h⟩
    | cons next items =>
      have hcons : sep.intercalate (item :: next :: items) =
          item ++ (sep ++ sep.intercalate (next :: items)) := by
        simp [List.intercalate, List.intersperse]
      rw [hcons, List.mem_append, List.mem_append] at h
      rcases h with h | h | h
      · exact .inr ⟨item, by simp, h⟩
      · exact .inl h
      · refine (ih h).imp_right fun ⟨i, hi, hx⟩ => ⟨i, List.mem_cons_of_mem _ hi, hx⟩

/-! ## Literals -/

theorem hexDigit_ne_return (n : Nat) : hexDigit n ≠ '\r' := by
  have hn : n % 16 < 16 := Nat.mod_lt _ (by decide)
  unfold hexDigit
  generalize n % 16 = d at hn
  revert d
  decide

theorem return_not_mem_hex (width n : Nat) : '\r' ∉ hex width n := by
  induction width generalizing n with
  | zero => simp [hex]
  | succ width ih => simp [hex, ih, (hexDigit_ne_return n).symm]

theorem return_not_mem_literalList (items : List (List Char)) : '\r' ∉ literalList items := by
  have hchar : ∀ c, '\r' ∉ literalChar c := by
    intro c
    unfold literalChar
    split_ifs <;> simp_all [unitEscape, return_not_mem_hex]
    rintro rfl
    contradiction
  simp only [literalList, List.mem_append, List.mem_cons, List.not_mem_nil, or_false]
  rintro ((h | h) | h)
  · exact absurd h (by decide)
  · rcases mem_of_mem_intercalate h with h | ⟨item, hitem, h⟩
    · exact absurd h (by decide)
    · obtain ⟨text, -, rfl⟩ := List.mem_map.1 hitem
      simp [literal, hchar] at h
  · exact absurd h (by decide)

end ElementBundle.Text

namespace ElementBundle.Markup

open ElementBundle.Source ElementBundle.Text

/-! ## Parts of markup -/

theorem Tag.expanded_subset (t : Tag) : t.expanded ⊆ t.text := by
  unfold Tag.expanded
  split
  · rename_i h
    intro x hx
    simp only [List.mem_append, List.mem_cons, List.not_mem_nil, or_false] at hx
    have hself : t.selfClosing = true := (Bool.and_eq_true_iff.1 h).1
    have htrim := @trimEnd_subset ('<' :: slashIf t.closing ++ t.name ++ t.attributes) x
    simp only [Tag.text, hself, slashIf, if_true, List.mem_append, List.mem_cons,
      List.not_mem_nil, or_false] at htrim ⊢
    tauto
  · exact fun _ hx => hx

theorem Tag.source_parts_subset {t : Tag} {nesting : Nat} {parts : List Part}
    (h : t.parts nesting = .ok parts) : parts.flatMap Part.source ⊆ t.text := by
  rw [flatMap_source_tagParts (Tag.parts_eq_ok h)]
  split
  · exact fun _ hx => hx
  · exact t.expanded_subset

/-- The parts of a block hold no character that its source does not hold. -/
theorem readContent_subset {depth : Nat} {afterColon : Bool} {mode : Mode} {s : List Char}
    {r : Remainder} (h : readContent depth afterColon mode s = .ok r) :
    (r.content ++ r.closing).flatMap Part.source ⊆ r.source := by
  have push : ∀ {item : Item} {parts : List Part} {r' : Remainder},
      parts.flatMap Part.source ⊆ item.source →
      (r'.content ++ r'.closing).flatMap Part.source ⊆ r'.source →
      ((r'.push item parts).content ++ (r'.push item parts).closing).flatMap Part.source ⊆
        (r'.push item parts).source := by
    intro item parts r' hparts hrest
    simp only [Remainder.push, List.flatMap_append, Part.flatMap_source_join,
      List.append_assoc] at hrest ⊢
    exact List.append_subset.2 ⟨fun _ hx => List.mem_append_left _ (hparts hx),
      fun _ hx => List.mem_append_right _ (hrest hx)⟩
  fun_induction readContent depth afterColon mode s generalizing r with
  | case1 => cases h
  | case2 => cases h
  | case3 depth afterColon mode c s i hi t ht ih =>
    obtain ⟨r', hr, rfl⟩ := map_eq_ok h
    exact push (by simp [ht, Part.source, Item.source]) (ih hr)
  | case4 depth afterColon mode c s i hi t ht ih =>
    obtain ⟨r', hr, rfl⟩ := map_eq_ok h
    exact push (by simp [ht, Part.source, Item.source]) (ih hr)
  | case5 depth afterColon mode c s i hi t ht ih =>
    obtain ⟨r', hr, rfl⟩ := map_eq_ok h
    exact push (by simp [ht, Part.source, Item.source]) (ih hr)
  | case6 => cases h
  | case7 depth afterColon mode c s i hi t ht parts hp hz =>
    cases h
    exact Tag.source_parts_subset hp
  | case8 depth afterColon mode c s i hi t ht parts hp hz ih =>
    obtain ⟨r', hr, rfl⟩ := map_eq_ok h
    exact push (by rw [ht]; exact Tag.source_parts_subset hp) (ih hr)

theorem readBlock_subset {t : Tag} {rest : List Char} {r : BlockRead}
    (h : readBlock t rest = .ok r) : r.block.parts.flatMap Part.source ⊆ r.source := by
  unfold readBlock at h
  split at h
  · cases h
  · rename_i opening hopening
    have htag := Tag.source_parts_subset hopening
    split at h
    · cases h
      simpa [Block.parts] using htag
    · obtain ⟨r', hr, rfl⟩ := map_eq_ok h
      simp only [Block.parts, List.append_assoc, List.flatMap_append]
      refine List.append_subset.2 ⟨fun _ hx => List.mem_append_left _ (htag hx), fun _ hx => ?_⟩
      rw [← List.flatMap_append] at hx
      exact List.mem_append_right _ (readContent_subset hr hx)

/-! ## Script -/

theorem mem_of_mem_escapeTemplate {x : Char} (hx : x ≠ '\\') {s : List Char}
    (h : x ∈ escapeTemplate s) : x ∈ s := by
  fun_induction escapeTemplate s <;> simp_all <;> tauto

theorem return_mem_source {p : Part} (h : '\r' ∈ p.render) : '\r' ∈ p.source := by
  cases p with
  | text s => exact mem_of_mem_escapeTemplate (by decide) h
  | expression s => simpa [Part.render, Part.source] using h
  | comment s => simpa [Part.render, Part.source] using h

theorem return_mem_parts {parts : List Part} (h : '\r' ∈ renderParts parts) :
    '\r' ∈ parts.flatMap Part.source := by
  obtain ⟨p, hp, hx⟩ := List.mem_flatMap.1 h
  exact List.mem_flatMap.2 ⟨p, hp, return_mem_source hx⟩

theorem Renderer.return_mem_block {r : Renderer} (hhelper : '\r' ∉ r.helper) {b : Block}
    (h : '\r' ∈ r.block b) : '\r' ∈ b.parts.flatMap Part.source := by
  unfold Renderer.block at h
  split at h
  · simp only [List.mem_append, List.mem_singleton] at h
    rcases h with (h | h) | h
    · exact absurd h (by decide)
    · have hmem := return_mem_parts h
      simp only [Block.parts, List.flatMap_append, List.mem_append]
      exact .inl (.inr hmem)
    · exact absurd h (by decide)
  · simp only [List.mem_append, hhelper, false_or] at h
    rcases h with (h | h) | h
    · exact absurd h (by decide)
    · exact return_mem_parts h
    · exact absurd h (by decide)

theorem Renderer.return_not_mem_tokens {r : Renderer} (hhelper : '\r' ∉ r.helper) {mode final : Mode}
    {s : List Char} {ts : List Token} (hreads : Reads true mode s ts final) (h : '\r' ∉ s) :
    '\r' ∉ r.tokens ts := by
  induction hreads with
  | nil => simp [Renderer.tokens]
  | @cons mode next final t rest ts head tail ih =>
    simp only [List.mem_append, not_or] at h
    simp only [Renderer.tokens, List.flatMap_cons, List.mem_append, not_or]
    refine ⟨?_, ih h.2⟩
    cases t with
    | markup text b =>
      obtain ⟨tag, content, -, -, hblock⟩ := head.exists_readBlock
      exact fun hr => h.1 (readBlock_subset hblock (Renderer.return_mem_block hhelper hr))
    | _ => exact h.1

end ElementBundle.Markup

namespace ElementBundle.Component

open ElementBundle.Source ElementBundle.Text ElementBundle.Markup

/-! ## Generated members -/

/-- The words of a directive hold no blanks, so names have no carriage return in any source. -/
theorem return_not_mem_name {body : List Char} {tag : Option (List Char)} {d : Descriptor}
    {remarks : List Remark} (h : describe body tag = .ok (d, remarks)) {a : Attribute}
    (ha : a ∈ d.attributes) : '\r' ∉ a.name := by
  have hspecs : ∃ specs, d.attributes = (declare specs).1 := by
    unfold describe at h
    dsimp only at h
    split at h
    · cases h
    · split at h
      · cases h
      · cases h
        exact ⟨_, rfl⟩
  obtain ⟨specs, hspecs⟩ := hspecs
  rw [hspecs] at ha
  obtain ⟨word, hword, rfl⟩ := exists_word_of_mem_declareFrom ha
  intro hreturn
  have htrim := trimEnd_subset _ (wordShape_name_subset _ hreturn)
  have hmem := (List.dropWhile_sublist _).mem htrim
  exact absurd ((of_mem_words hword).2 _ hmem) (by decide)

theorem return_not_mem_member {signature statement : List Char} (hsignature : '\r' ∉ signature)
    (hstatement : '\r' ∉ statement) : '\r' ∉ member signature statement := by
  have hopen : '\r' ∉ " \x7b\n\t\t".toList := by decide
  have hclose : '\r' ∉ "\n\t\x7d".toList := by decide
  simp only [member, List.mem_append, List.mem_cons, not_or]
  exact ⟨⟨⟨⟨by decide, hsignature⟩, hopen⟩, hstatement⟩, hclose⟩

theorem return_not_mem_accessors {a : Attribute} (h : '\r' ∉ a.name) {m : List Char}
    (hm : m ∈ a.accessors) : '\r' ∉ m := by
  have hidentifier : '\r' ∉ a.identifier := by
    intro hmem
    obtain ⟨c, hc, hreturn⟩ := List.mem_map.1 hmem
    split at hreturn
    · cases hreturn
    · exact h (hreturn ▸ hc)
  have around : ∀ {front back : List Char}, '\r' ∉ front → '\r' ∉ back → ∀ {s : List Char}, '\r' ∉ s →
      '\r' ∉ front ++ s ++ back := by
    intro front back hfront hback s hs
    simp [hfront, hback, hs]
  simp only [Attribute.accessors, List.mem_cons, List.not_mem_nil, or_false] at hm
  rcases hm with rfl | rfl
  · refine return_not_mem_member (around (by decide) (by decide) hidentifier) ?_
    unfold Attribute.getter
    split <;> exact around (by decide) (by decide) h
  · refine return_not_mem_member (around (by decide) (by decide) hidentifier) ?_
    unfold Attribute.setter
    split <;> exact around (by decide) (by decide) h

theorem return_not_mem_membersText {d : Descriptor} (h : ∀ a ∈ d.attributes, '\r' ∉ a.name) :
    '\r' ∉ d.membersText := by
  have hmembers : ∀ m ∈ d.members, '\r' ∉ m := by
    intro m hm
    rcases List.mem_cons.1 hm with rfl | hm
    · refine return_not_mem_member (by decide) ?_
      simp only [List.mem_append, not_or]
      exact ⟨⟨by decide, return_not_mem_literalList _⟩, by decide⟩
    · obtain ⟨a, ha, hm⟩ := List.mem_flatMap.1 hm
      exact return_not_mem_accessors (h a ha) hm
  simp only [Descriptor.membersText, List.mem_append, List.mem_cons, not_or]
  refine ⟨⟨by decide, fun hmem => ?_⟩, by decide⟩
  rcases mem_of_mem_intercalate hmem with hsep | ⟨m, hm, hreturn⟩
  · exact absurd hsep (by decide)
  · exact hmembers m hm hreturn

/-! ## The whole component -/

theorem EditSites.names_subset {body : List Char} {tag : Option (List Char)} {d : Descriptor}
    {k p : Nat} (sites : EditSites body tag d k p) : d.tag ⊆ body ∧ d.className ⊆ body := by
  constructor
  · obtain ⟨found, hfound, -, htag⟩ := sites.directive
    obtain ⟨gap, stop, rest, -, hdrop, -⟩ := readDirective?_eq_some_iff.1 hfound
    intro x hx
    refine List.mem_of_mem_drop (i := p) ?_
    rw [hdrop, htag]
    simp [hx]
  · obtain ⟨blanks, -, -, -, -, -, hbody⟩ := readClass?_eq_some sites.head
    intro x hx
    rw [hbody]
    simp [hx]

theorem return_not_mem_registration {d : Descriptor} (htag : '\r' ∉ d.tag)
    (hname : '\r' ∉ d.className) : '\r' ∉ d.registration := by
  have hstart : '\r' ∉ "\n\ncustomElements.define('".toList := by decide
  have hmiddle : '\r' ∉ "', ".toList := by decide
  have hstop : '\r' ∉ ");".toList := by decide
  unfold Descriptor.registration
  exact List.not_mem_append (List.not_mem_append (List.not_mem_append
    (List.not_mem_append hstart htag) hmiddle) hname) hstop

theorem return_not_mem_generate {script : List Char} {span : Span} {tag : Option (List Char)}
    {d : Descriptor} {remarks : List Remark} (hspan : locate script = .ok span)
    (hdescribe : describe (span.slice script) tag = .ok (d, remarks)) (h : '\r' ∉ script) :
    '\r' ∉ generate d (span.slice script) := by
  have slice : ∀ {s : List Char}, '\r' ∉ s → ∀ i j, '\r' ∉ (s.take i).drop j :=
    fun hs i j hmem => hs (List.mem_of_mem_take (List.mem_of_mem_drop hmem))
  have hbody : '\r' ∉ span.slice script := slice h _ _
  obtain ⟨k, p, sites⟩ := exists_editSites hspan hdescribe
  obtain ⟨htag, hname⟩ := sites.names_subset
  have hextension : '\r' ∉ d.extension := by unfold Descriptor.extension; split <;> decide
  have hconstruction : '\r' ∉ d.construction := by unfold Descriptor.construction; split <;> decide
  have hmembers := return_not_mem_membersText fun a ha => return_not_mem_name hdescribe ha
  have hregistration := return_not_mem_registration (mt (@htag _) hbody) (mt (@hname _) hbody)
  have hhead : '\r' ∉ (span.slice script).take k := fun hmem => hbody (List.mem_of_mem_take hmem)
  rw [sites.generate_eq_slices]
  simp only [List.mem_append, not_or]
  exact ⟨⟨⟨⟨⟨⟨⟨hhead, hextension⟩, slice hbody _ _⟩, hconstruction⟩, slice hbody _ _⟩, hmembers⟩,
    by decide⟩, hregistration⟩

/-- A compiled component has no carriage return that its source does not have. -/
theorem return_not_mem_compile {renderer : Renderer} (hhelper : '\r' ∉ renderer.helper)
    {source : List Char} {tag : Option (List Char)} {c : Compiled}
    (hcompile : compile renderer source tag = .ok c) (h : '\r' ∉ source) : '\r' ∉ c.output := by
  obtain ⟨⟨state, hscan⟩, hscript, hspan, hdescribe, houtput⟩ := compile_eq_ok hcompile
  obtain ⟨final, hreads, -⟩ := scan_eq_ok_iff.1 hscan
  have hclean : '\r' ∉ c.script := hscript ▸ Renderer.return_not_mem_tokens hhelper hreads h
  rw [houtput]
  simp only [List.mem_append, not_or]
  exact ⟨⟨fun hmem => hclean (List.mem_of_mem_take hmem),
    return_not_mem_generate hspan hdescribe hclean⟩, fun hmem => hclean (List.mem_of_mem_drop hmem)⟩

end ElementBundle.Component
