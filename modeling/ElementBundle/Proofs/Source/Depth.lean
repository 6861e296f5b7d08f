import ElementBundle.Proofs.Source.Simulation

/-! # Depth of a scan

At every point of a run over a source no more elements are closed than opened,
and outside of blocks none is open. A scan that succeeds has left every block
and every expression, each block at the first tag that leaves nothing open, and
the mode in which it ends tells whether its last token was left open.
-/

namespace ElementBundle.Source

open ElementBundle.Text ElementBundle.Markup

/-! ## Tokens that stay open -/

/-- Every backslash of a text hides a character of it. -/
inductive Whole : List Char → Prop
  | nil : Whole []
  | plain {c : Char} {s : List Char} (hc : c ≠ '\\') (tail : Whole s) : Whole (c :: s)
  | escape {c : Char} {s : List Char} (tail : Whole s) : Whole ('\\' :: c :: s)

/-- A token whose text holds no end of it, and what the scanner stays inside of. A line comment is
ended by what follows it. -/
inductive Token.Open : Token → Mode → Prop
  | lineComment (text : List Char) : Token.Open (.lineComment text) .lineComment
  | blockComment {body : List Char} (open_ : ¬ ['*', '/'] <:+: body) :
      Token.Open (.blockComment ('/' :: '*' :: body)) .blockComment
  | string {q : Char} {body : List Char} (open_ : ∀ a b, body = a ++ q :: b → ¬ Whole a) :
      Token.Open (.string (q :: body)) (.string q)

/-- A string is closed by the first quote that no backslash hides. -/
theorem readString_closed_iff {q : Char} (hq : q ≠ '\\') (s : List Char) :
    (readString q s).2.1 = true ↔ ∃ a b, s = a ++ q :: b ∧ Whole a := by
  induction s using escapedInduction with
  | nil => simp [readString]
  | backslash =>
      constructor
      · intro h
        cases h
      · rintro ⟨a, b, hs, -⟩
        cases a with
        | nil => exact absurd (List.cons.inj hs).1.symm hq
        | cons c a => exact absurd (List.cons.inj hs).2 (by simp)
  | escape c s ih =>
      rw [readString_escape, ih]
      constructor
      · rintro ⟨a, b, rfl, ha⟩
        exact ⟨'\\' :: c :: a, b, rfl, .escape ha⟩
      · rintro ⟨a, b, hs, ha⟩
        cases ha with
        | nil => exact absurd (List.cons.inj hs).1.symm hq
        | plain hc tail => exact absurd (List.cons.inj hs).1.symm hc
        | escape tail =>
            obtain ⟨-, hs⟩ := List.cons.inj hs
            obtain ⟨-, hs⟩ := List.cons.inj hs
            exact ⟨_, b, hs, tail⟩
  | plain c s hc ih =>
      rw [readString_plain hc]
      by_cases hcq : c = q
      · rw [if_pos hcq]
        exact ⟨fun _ => ⟨[], s, by rw [hcq]; rfl, .nil⟩, fun _ => rfl⟩
      · rw [if_neg hcq]
        show (readString q s).2.1 = true ↔ _
        rw [ih]
        constructor
        · rintro ⟨a, b, rfl, ha⟩
          exact ⟨c :: a, b, rfl, .plain hc ha⟩
        · rintro ⟨a, b, hs, ha⟩
          cases ha with
          | nil => exact absurd (List.cons.inj hs).1 hcq
          | plain hc' tail => exact ⟨_, b, (List.cons.inj hs).2, tail⟩
          | escape tail => exact absurd (List.cons.inj hs).1 hc

/-- The last token leaves the scanner inside of it exactly if it is open. -/
theorem Stands.open_iff {markup : Bool} {t : Token} {final mode : Mode} {rest : List Char}
    (h : Stands markup t final rest) (hrest : rest = []) (hmode : mode ≠ .code) :
    final = mode ↔ t.Open mode := by
  cases h with
  | code _ _ _ =>
      constructor
      · intro h
        exact absurd h.symm hmode
      · intro h
        cases h
  | lineComment oneLine stop =>
      subst hrest
      constructor
      · rintro rfl
        exact .lineComment _
      · intro h
        cases h
        rfl
  | @blockComment body _ first =>
      constructor
      · intro h
        exact absurd h.symm hmode
      · intro h
        generalize htext : '/' :: '*' :: body ++ ['*', '/'] = text at h
        cases h with
        | @blockComment body' open_ =>
            have hbody : body' = body ++ ['*', '/'] := by simpa using htext.symm
            exact absurd ⟨body, [], by simp [hbody]⟩ open_
  | @openBlockComment body open_ =>
      constructor
      · rintro rfl
        exact .blockComment (findFirst?_eq_none_iff.1 open_)
      · intro h
        cases h
        rfl
  | @string q body _ quote closed =>
      constructor
      · intro h
        exact absurd h.symm hmode
      · intro h
        cases h with
        | string open_ =>
            obtain ⟨a, b, hs, ha⟩ := (readString_closed_iff (ne_backslash_of_isQuote quote) body).1
              (by rw [closed])
            exact absurd ha (open_ a b hs)
  | @openString q body quote open_ =>
      constructor
      · rintro rfl
        refine .string fun a b hs ha => ?_
        have hclosed := (readString_closed_iff (ne_backslash_of_isQuote quote) body).2 ⟨a, b, hs, ha⟩
        rw [open_] at hclosed
        cases hclosed
      · intro h
        cases h
        rfl
  | markup on opening front block =>
      constructor
      · intro h
        exact absurd h.symm hmode
      · intro h
        cases h

theorem Reads.open_iff {markup : Bool} {final mode : Mode} {s : List Char} {ts : List Token}
    (h : Reads markup .code s ts final) (hmode : mode ≠ .code) :
    final = mode ↔ ∃ t, ts.getLast? = some t ∧ t.Open mode := by
  rcases List.eq_nil_or_concat ts with rfl | ⟨front, t, rfl⟩
  · cases h
    constructor
    · intro h
      exact absurd h.symm hmode
    · rintro ⟨t, ht, -⟩
      cases ht
  · rw [List.concat_eq_append] at h ⊢
    obtain ⟨mid, hlast⟩ := h.drop
    obtain ⟨next, hstands, htail⟩ := hlast.uncons
    obtain ⟨-, rfl⟩ := htail.of_nil rfl
    rw [hstands.open_iff rfl hmode, List.getLast?_append]
    simp

/-! ## Depth along a run -/

/-- A markup token in front of `rest` is read item by item, its last item is a tag, and its tags are
balanced. -/
def BlockBalanced (text rest : List Char) : Prop :=
  ∃ items, Itemized false (text ++ rest) items rest ∧ text = items.flatMap Item.source ∧
    (∃ front t, items = front ++ [.tag t]) ∧ Balanced (items.filterMap Item.tag?)

theorem Reads.blockBalanced {markup : Bool} {mode final : Mode} {s text : List Char}
    {block : Block} {front back : List Token}
    (h : Reads markup mode s (front ++ .markup text block :: back) final) :
    BlockBalanced text (back.flatMap Token.text) := by
  obtain ⟨mid, hmid⟩ := h.drop
  obtain ⟨next, hstands, -⟩ := hmid.uncons
  obtain ⟨tag, content, hopen, hfront, hblock⟩ := hstands.exists_readBlock
  have hsource : text ++ back.flatMap Token.text = tag.text ++ content := readBlock_source hblock
  obtain ⟨items, hitems, htext, hlast, hbalanced⟩ :=
    exists_items_of_readBlock hopen hfront hblock
  rw [← hsource] at hitems
  exact ⟨items, hitems, htext, hlast, hbalanced⟩

/-- At every point of a run over a source the number of open elements is not negative, and zero
outside of blocks. The run stops with the state of the scan in its registers, and passes the places
between its tokens. The tags of every block are balanced, and a scan that succeeds is inside of
nothing but the last token that stays open. -/
theorem scan_nesting (source : List Char) (markup : Bool) :
    (∀ p, Reaches markup (.start source) p →
      0 ≤ p.registers.nesting ∧ (p.registers.inBlock = false → p.registers.nesting = 0)) ∧
    (∃ last, last.step markup = none ∧ last.registers = registersOf (scanState source markup) ∧
      Reaches markup (.start source) last ∧
      ∀ p, Reaches markup (.start source) p → Reaches markup p last) ∧
    ∀ r, scan source markup = .ok r →
      (∀ front back, r.tokens = front ++ back → ∃ afterColon mode, Reaches markup (.start source)
        ⟨.script afterColon, { mode }, back.flatMap Token.text, none⟩) ∧
      (∀ front text block back, r.tokens = front ++ .markup text block :: back →
        BlockBalanced text (back.flatMap Token.text)) ∧
      registersOf r.state = ⟨false, 0, r.state.mode, 0⟩ ∧
      ∀ mode, mode ≠ .code →
        (r.state.mode = mode ↔ ∃ t, r.tokens.getLast? = some t ∧ t.Open mode) := by
  refine ⟨fun p hp => hp.nesting, ?_, ?_⟩
  · obtain ⟨last, hreach, hstop, hregisters⟩ := exists_reaches_scan source markup
    exact ⟨last, hstop, hregisters, hreach, fun p hp => hp.of_last hreach hstop⟩
  · intro r hscan
    obtain ⟨final, hreads, hstate⟩ := scan_eq_ok_iff.1 hscan
    refine ⟨?_, ?_, ?_, ?_⟩
    · intro front back hsplit
      rw [hsplit] at hreads
      obtain ⟨b, mid, hreach, -⟩ :=
        exists_reaches_reads hreads (fun _ => rfl) (aligned_false source)
      exact ⟨b, mid, hreach⟩
    · intro front text block back hsplit
      rw [hsplit] at hreads
      exact hreads.blockBalanced
    · rw [hstate]
      rfl
    · intro mode hmode
      rw [hstate]
      exact hreads.open_iff hmode

/-- A block with an expression and a tag that closes itself, and a string that stays open behind it. -/
theorem scan_nesting_openString :
    let text := "<p>\x7b1\x7d<b/></p>".toList
    let source := text ++ ['\'']
    let block : Block := ⟨['p'], [.text "<p>".toList],
      [.expression ['1'], .text "<b/>".toList], [.text "</p>".toList]⟩
    let tokens := [Token.markup text block, .string ['\'']]
    let inside : Point := ⟨.tag, ⟨true, 1, .code, 0⟩, "<p>".toList, some (source.drop 3)⟩
    scan source = .ok ⟨tokens, { mode := .string '\'' }⟩ ∧
      Reaches true (.start source) inside ∧ 0 ≤ inside.registers.nesting ∧
      BlockBalanced text ['\''] ∧
      ∃ t, tokens.getLast? = some t ∧ t.Open (.string '\'') := by
  intro text source block tokens inside
  obtain ⟨hpoints, -, hresult⟩ := scan_nesting source true
  have hscan : scan source = .ok ⟨tokens, { mode := .string '\'' }⟩ := by decide +kernel
  have hreach : Reaches true (.start source) inside := by
    have hblock : (Point.start source).step true =
        some ⟨.content false, ⟨true, 0, .code, 0⟩, source, none⟩ := by decide +kernel
    have htag : Point.step true ⟨.content false, ⟨true, 0, .code, 0⟩, source, none⟩ =
        some inside := by decide +kernel
    exact .of_step hblock (.of_step htag (.refl _))
  obtain ⟨-, hblocks, -, hopen⟩ := hresult _ hscan
  exact ⟨hscan, hreach, (hpoints inside hreach).1, hblocks [] text block [.string ['\'']] rfl,
    (hopen (.string '\'') (by decide)).1 rfl⟩

end ElementBundle.Source
