import ElementBundle.Proofs.Source.Depth
import ElementBundle.Proofs.Source.Lossless
import ElementBundle.Proofs.Source.Place

/-! # Segments of a plain source

`Segments` tells the rules of the tokens from the characters of the source
alone: where a token of each kind may start, where it has to end, and what code
must not hold. It is not told along a scan, so any list of tokens can be tried
against it. A scan that leaves markup alone never fails, and what it returns is
the only list of tokens that passes.
-/

namespace ElementBundle.Source

open ElementBundle.Text ElementBundle.Markup

/-! ## The rules -/

/-- Two slashes start a comment unless a colon stands just before them. -/
def LineMark (before rest : List Char) : Prop :=
  ['/', '/'] <+: rest ∧ before.getLast? ≠ some ':'

/-- A comment or a string may start between two texts. -/
def MarkAt (before rest : List Char) : Prop :=
  LineMark before rest ∨ ['/', '*'] <+: rest ∨ rest.head?.any isQuote = true

/-- A comment ends with its first end mark, or with the source if it has none. -/
def EndsComment (body after : List Char) : Prop :=
  (∃ inside, body = inside ++ ['*', '/'] ∧ ¬ ['*', '/'] <:+: inside ++ ['*']) ∨
    (after = [] ∧ ¬ ['*', '/'] <:+: body)

/-- A string ends with its first quote that no backslash takes up, or with the source if it has
none. -/
def EndsString (q : Char) (body after : List Char) : Prop :=
  (∃ inside, body = inside ++ [q] ∧ Whole inside ∧ ∀ a b, inside = a ++ q :: b → ¬ Whole a) ∨
    (after = [] ∧ ∀ a b, body = a ++ q :: b → ¬ Whole a)

/-- The rule of a token that stands between two texts. -/
def Token.Obeys (before after : List Char) : Token → Prop
  | .code text => ∀ u v, text = u ++ v → v ≠ [] → ¬ MarkAt (before ++ u) (v ++ after)
  | .lineComment text =>
      LineMark before text ∧ '\n' ∉ text ∧ (after = [] ∨ after.head? = some '\n')
  | .blockComment text => ∃ body, text = '/' :: '*' :: body ∧ EndsComment body after
  | .string text => ∃ q body, text = q :: body ∧ isQuote q = true ∧ EndsString q body after
  | .markup _ _ => False

/-- Each token obeys the rule of its kind, where `before` stands in front of the first one. -/
def Lawful (before : List Char) (ts : List Token) : Prop :=
  ∀ front t back, ts = front ++ t :: back →
    t.Obeys (before ++ front.flatMap Token.text) (back.flatMap Token.text)

/-- A correct way to cut a source into tokens. -/
structure Segments (source : List Char) (ts : List Token) : Prop where
  spells : ts.flatMap Token.text = source
  nonempty : ∀ t ∈ ts, t.text ≠ []
  apart : ts.IsChain fun a b => ¬ (a.isCode = true ∧ b.isCode = true)
  lawful : Lawful [] ts

theorem lawful_cons_iff {before : List Char} {t : Token} {ts : List Token} :
    Lawful before (t :: ts) ↔
      t.Obeys before (ts.flatMap Token.text) ∧ Lawful (before ++ t.text) ts := by
  constructor
  · intro h
    constructor
    · simpa using h [] t ts rfl
    · intro front u back hsplit
      have hu := h (t :: front) u back (by rw [hsplit]; rfl)
      simpa using hu
  · intro h front u back hsplit
    cases front with
    | nil =>
        obtain ⟨rfl, rfl⟩ := List.cons.inj hsplit
        simpa using h.1
    | cons t' front =>
        obtain ⟨rfl, htail⟩ := List.cons.inj hsplit
        simpa using h.2 front u back htail

/-! ## Ends of comments and strings -/

/-- An end mark is the first one exactly if none starts in front of it. -/
theorem findFirst?_endMark_iff {body : List Char} :
    findFirst? ['*', '/'] (body ++ ['*', '/']) = some (body, []) ↔
      ¬ ['*', '/'] <:+: body ++ ['*'] := by
  rw [findFirst?_eq_some_iff]
  constructor
  · rintro ⟨-, hfirst⟩ ⟨a, b, hab⟩
    have hle := hfirst a (b ++ ['/']) (by
      rw [← List.append_assoc, hab]
      simp)
    have hlength := congrArg List.length hab
    simp only [List.length_append, List.length_cons, List.length_nil] at hlength
    omega
  · intro hnone
    refine ⟨by simp, fun b r hbr => ?_⟩
    rcases List.eq_nil_or_concat r with rfl | ⟨r, x, rfl⟩
    · have hlength := congrArg List.length hbr
      simp only [List.length_append, List.length_cons, List.length_nil] at hlength
      omega
    · have hinit : (body ++ ['*']) ++ ['/'] = (b ++ ['*', '/'] ++ r) ++ [x] := by
        simpa using hbr
      exact absurd ⟨b, r, (List.append_inj' hinit rfl).1.symm⟩ hnone

theorem exists_inside_of_readString {q : Char} (hq : q ≠ '\\') {s text rest : List Char}
    (h : readString q s = (text, true, rest)) :
    ∃ inside, text = inside ++ [q] ∧ Whole inside ∧ ∀ a b, inside = a ++ q :: b → ¬ Whole a := by
  induction s using escapedInduction generalizing text with
  | nil => simp [readString] at h
  | backslash => simp [readString] at h
  | escape c s ih =>
      rw [readString_escape, Prod.mk.injEq] at h
      have hread : readString q s = ((readString q s).1, true, rest) := Prod.ext rfl h.2
      obtain ⟨inside, htext, hwhole, hfirst⟩ := ih hread
      refine ⟨'\\' :: c :: inside, by rw [← h.1, htext]; rfl, .escape hwhole, ?_⟩
      intro a b hab ha
      cases ha with
      | nil => exact hq (List.cons.inj hab).1.symm
      | plain hc tail => exact hc (List.cons.inj hab).1.symm
      | escape tail => exact hfirst _ b (List.cons.inj (List.cons.inj hab).2).2 tail
  | plain c s hc ih =>
      rw [readString_plain hc] at h
      by_cases hcq : c = q
      · rw [if_pos hcq, Prod.mk.injEq] at h
        refine ⟨[], by rw [← h.1, hcq]; rfl, .nil, fun a b hab => ?_⟩
        simp at hab
      · rw [if_neg hcq, Prod.mk.injEq] at h
        have hread : readString q s = ((readString q s).1, true, rest) := Prod.ext rfl h.2
        obtain ⟨inside, htext, hwhole, hfirst⟩ := ih hread
        refine ⟨c :: inside, by rw [← h.1, htext]; rfl, .plain hc hwhole, ?_⟩
        intro a b hab ha
        cases ha with
        | nil => exact hcq (List.cons.inj hab).1
        | plain _ tail => exact hfirst _ b (List.cons.inj hab).2 tail
        | escape _ => exact hc (List.cons.inj hab).1

theorem readString_inside {q : Char} (hq : q ≠ '\\') {inside : List Char} (hwhole : Whole inside)
    (hfirst : ∀ a b, inside = a ++ q :: b → ¬ Whole a) (rest : List Char) :
    readString q (inside ++ q :: rest) = (inside ++ [q], true, rest) := by
  induction hwhole with
  | nil => rw [List.nil_append, List.nil_append, readString_plain hq, if_pos rfl]
  | @plain c s hc tail ih =>
      have hcq : c ≠ q := by
        intro h
        exact hfirst [] s (by rw [h]; rfl) .nil
      have hread := ih fun a b hab ha => hfirst (c :: a) b (by rw [hab]; rfl) (.plain hc ha)
      rw [List.cons_append, readString_plain hc, if_neg hcq, hread]
      rfl
  | @escape c s tail ih =>
      have hread := ih fun a b hab ha =>
        hfirst ('\\' :: c :: a) b (by rw [hab]; rfl) (.escape ha)
      rw [List.cons_append, List.cons_append, readString_escape, hread]
      rfl

theorem readString_eq_open_iff {q : Char} (hq : q ≠ '\\') {body : List Char} :
    readString q body = (body, false, []) ↔ ∀ a b, body = a ++ q :: b → ¬ Whole a := by
  have hclosed := readString_closed_iff hq body
  constructor
  · intro h a b hab ha
    have htrue := hclosed.2 ⟨a, b, hab, ha⟩
    rw [h] at htrue
    cases htrue
  · intro h
    have hopen : (readString q body).2.1 = false := by
      cases hread : (readString q body).2.1 with
      | false => rfl
      | true =>
          obtain ⟨a, b, hab, ha⟩ := hclosed.1 hread
          exact absurd ha (h a b hab)
    obtain ⟨htext, hrest⟩ := readString_rest_of_open hopen
    exact Prod.ext htext (Prod.ext hopen hrest)

/-! ## Marks and colons -/

/-- A colon does not stand in front of two slashes. -/
def Clear (before rest : List Char) : Prop :=
  before.getLast? = some ':' → ¬ ['/', '/'] <+: rest

theorem opener?_eq_none_iff {before : List Char} {c : Char} {s : List Char} :
    opener? false (before.getLast? == some ':') c s = none ↔ ¬ MarkAt before (c :: s) := by
  unfold opener? MarkAt LineMark
  by_cases hc : c = '/'
  · subst hc
    have hquote : isQuote '/' = false := by decide
    cases s with
    | nil => simp [hquote]
    | cons d s =>
        by_cases hd : d = '/'
        · subst hd
          simp [hquote]
        · by_cases hstar : d = '*'
          · subst hstar
            simp
          · simp [hd, hstar, hquote, Ne.symm hd, Ne.symm hstar]
  · by_cases hq : isQuote c = true
    · simp [hc, hq]
    · simp [hc, hq, Ne.symm hc]

theorem unmarked_iff {before text rest : List Char} :
    Unmarked false (before.getLast? == some ':') text rest ↔
      ∀ u v, text = u ++ v → v ≠ [] → ¬ MarkAt (before ++ u) (v ++ rest) := by
  induction text generalizing before with
  | nil =>
      simp only [Unmarked, true_iff]
      intro u v huv hv
      exact absurd (List.append_eq_nil_iff.1 huv.symm).2 hv
  | cons c s ih =>
      have hcolon : (c == ':') = ((before ++ [c]).getLast? == some ':') := by simp
      rw [Unmarked, opener?_eq_none_iff, hcolon, ih]
      constructor
      · intro h u v huv hv
        cases u with
        | nil =>
            rw [List.nil_append] at huv
            rw [List.append_nil, ← huv]
            exact h.1
        | cons d u =>
            obtain ⟨rfl, hs⟩ := List.cons.inj huv
            simpa using h.2 u v hs hv
      · intro h
        constructor
        · simpa using h [] (c :: s) rfl (List.cons_ne_nil c s)
        · intro u v huv hv
          simpa using h (c :: u) v (by rw [huv]; rfl) hv

/-- Where no colon stands in front of two slashes, it does not matter what stands in front. -/
theorem unmarked_false_iff {before text rest : List Char} (hne : text ≠ [])
    (hclear : Clear before (text ++ rest)) :
    Unmarked false false text rest ↔ Unmarked false (before.getLast? == some ':') text rest := by
  obtain ⟨c, s, rfl⟩ := List.exists_cons_of_ne_nil hne
  cases hcolon : before.getLast? == some ':' with
  | false => rfl
  | true =>
      have hslashes := hclear (by simpa using hcolon)
      have hopener : opener? false false c (s ++ rest) = opener? false true c (s ++ rest) := by
        unfold opener?
        by_cases hc : c = '/'
        · rw [if_pos hc, if_pos hc]
          split
          · rename_i u hu
            exact absurd ⟨u, by simp [hc, hu]⟩ hslashes
          · rfl
          · rfl
        · rw [if_neg hc, if_neg hc]
      rw [Unmarked, Unmarked, hopener]

theorem colonAfter_false_eq {text : List Char} (before : List Char) (hne : text ≠ []) :
    colonAfter false text = ((before ++ text).getLast? == some ':') := by
  rcases List.eq_nil_or_concat text with rfl | ⟨init, c, rfl⟩
  · exact absurd rfl hne
  · rw [List.concat_eq_append, colonAfter_append, ← List.append_assoc, List.getLast?_concat]
    rfl

theorem Stands.clear {t : Token} {mode : Mode} {rest : List Char} (h : Stands false t mode rest)
    (before : List Char) : Clear (before ++ t.text) rest := by
  intro hcolon hslashes
  rw [List.getLast?_append_of_ne_nil _ h.text_ne_nil] at hcolon
  cases h with
  | @code text _ nonempty unmarked marked =>
      obtain ⟨u, rfl⟩ := hslashes
      have hafter : colonAfter false text = true := by
        rw [colonAfter_false_eq [] nonempty]
        exact beq_iff_eq.2 hcolon
      rw [hafter] at marked
      cases marked
  | lineComment oneLine stop =>
      obtain ⟨u, rfl⟩ := hslashes
      simp at stop
  | @blockComment body _ first =>
      have hlast : ('/' :: '*' :: body ++ ['*', '/']).getLast? = some '/' := by
        rw [List.getLast?_append]
        rfl
      exact absurd (hlast.symm.trans hcolon) (by decide)
  | openBlockComment =>
      obtain ⟨u, hu⟩ := hslashes
      cases hu
  | @string q body _ quote closed =>
      have hlast : (q :: body).getLast? = some q := by
        rw [List.getLast?_cons, getLast?_of_readString closed]
        rfl
      obtain rfl := Option.some.inj (hlast.symm.trans hcolon)
      exact absurd quote (by decide)
  | openString =>
      obtain ⟨u, hu⟩ := hslashes
      cases hu
  | markup on => cases on

/-! ## Tokens that obey -/

theorem Stands.obeys {t : Token} {mode : Mode} {before rest : List Char}
    (h : Stands false t mode rest) (hclear : Clear before (t.text ++ rest)) :
    t.Obeys before rest := by
  cases h with
  | code nonempty unmarked marked =>
      exact unmarked_iff.1 ((unmarked_false_iff nonempty hclear).1 unmarked)
  | @lineComment body _ oneLine stop =>
      refine ⟨⟨⟨body, rfl⟩, fun hcolon => ?_⟩, by simpa using oneLine, stop⟩
      exact hclear hcolon ⟨body ++ rest, rfl⟩
  | @blockComment body _ first =>
      exact ⟨body ++ ['*', '/'], rfl, .inl ⟨body, rfl, findFirst?_endMark_iff.1 first⟩⟩
  | @openBlockComment body open_ =>
      exact ⟨body, rfl, .inr ⟨rfl, findFirst?_eq_none_iff.1 open_⟩⟩
  | @string q body _ quote closed =>
      have hq := ne_backslash_of_isQuote quote
      exact ⟨q, body, rfl, quote, .inl (exists_inside_of_readString hq closed)⟩
  | @openString q body quote open_ =>
      have hq := ne_backslash_of_isQuote quote
      exact ⟨q, body, rfl, quote, .inr ⟨rfl, (readString_eq_open_iff hq).1 open_⟩⟩
  | markup on => cases on

theorem Token.Obeys.stands {t : Token} {before rest : List Char} (h : t.Obeys before rest)
    (hne : t.text ≠ []) (hclear : Clear before (t.text ++ rest))
    (hmarked : t.isCode = true → Marked false (colonAfter false t.text) rest) :
    ∃ mode, Stands false t mode rest := by
  cases t with
  | code text =>
      have hunmarked := (unmarked_false_iff hne hclear).2 (unmarked_iff.2 h)
      exact ⟨_, .code hne hunmarked (hmarked rfl)⟩
  | lineComment text =>
      obtain ⟨⟨⟨body, rfl⟩, -⟩, hline, hstop⟩ := h
      exact ⟨_, .lineComment (by simpa using hline) hstop⟩
  | blockComment text =>
      obtain ⟨body, rfl, ⟨inside, rfl, hfirst⟩ | ⟨rfl, hnone⟩⟩ := h
      · exact ⟨_, .blockComment (findFirst?_endMark_iff.2 hfirst)⟩
      · exact ⟨_, .openBlockComment (findFirst?_eq_none_iff.2 hnone)⟩
  | string text =>
      obtain ⟨q, body, rfl, hquote, hend⟩ := h
      have hq := ne_backslash_of_isQuote hquote
      rcases hend with ⟨inside, rfl, hwhole, hfirst⟩ | ⟨rfl, hopen⟩
      · exact ⟨_, .string hquote (readString_inside hq hwhole hfirst [])⟩
      · exact ⟨_, .openString hquote ((readString_eq_open_iff hq).2 hopen)⟩
  | markup text block => exact h.elim

theorem Token.Obeys.markAt {t : Token} {before rest : List Char} (h : t.Obeys before rest)
    (ht : t.isCode = false) : MarkAt before (t.text ++ rest) := by
  cases t with
  | code text => cases ht
  | lineComment text =>
      obtain ⟨⟨hslashes, hcolon⟩, -⟩ := h
      exact .inl ⟨hslashes.trans (List.prefix_append text rest), hcolon⟩
  | blockComment text =>
      obtain ⟨body, rfl, -⟩ := h
      exact .inr (.inl ⟨body ++ rest, rfl⟩)
  | string text =>
      obtain ⟨q, body, rfl, hquote, -⟩ := h
      exact .inr (.inr hquote)
  | markup text block => exact h.elim

theorem marked_of_markAt {before rest : List Char} (h : MarkAt before rest) :
    Marked false (before.getLast? == some ':') rest := by
  cases rest with
  | nil => trivial
  | cons c s =>
      show (opener? false (before.getLast? == some ':') c s).isSome = true
      rw [Option.isSome_iff_ne_none]
      exact fun hnone => opener?_eq_none_iff.1 hnone h

/-! ## Chains that obey -/

theorem Reads.lawful {mode final : Mode} {s before : List Char} {ts : List Token}
    (h : Reads false mode s ts final) (hclear : Clear before s) : Lawful before ts := by
  induction h generalizing before with
  | nil mode =>
      intro front t back hsplit
      simp at hsplit
  | cons head tail ih =>
      rw [lawful_cons_iff, tail.flatMap_text]
      exact ⟨head.obeys hclear, ih (head.clear before)⟩

/-- Tokens that obey their rules, with no two runs of code in a row, are read one after another. -/
theorem Lawful.reads {before : List Char} {ts : List Token} (h : Lawful before ts)
    (hne : ∀ t ∈ ts, t.text ≠ [])
    (hapart : ts.IsChain fun a b => ¬ (a.isCode = true ∧ b.isCode = true))
    (hclear : Clear before (ts.flatMap Token.text)) (mode : Mode) :
    ∃ final, Reads false mode (ts.flatMap Token.text) ts final := by
  induction ts generalizing before mode with
  | nil => exact ⟨mode, .nil mode⟩
  | cons t ts ih =>
      obtain ⟨hobeys, htail⟩ := lawful_cons_iff.1 h
      have hfirst := hne t List.mem_cons_self
      have hmarked : t.isCode = true → Marked false (colonAfter false t.text)
          (ts.flatMap Token.text) := by
        intro hcode
        cases ts with
        | nil => trivial
        | cons u us =>
            have hu : u.isCode = false := by
              have hpair := (List.isChain_cons_cons.1 hapart).1
              simpa [hcode] using hpair
            rw [colonAfter_false_eq before hfirst, List.flatMap_cons]
            exact marked_of_markAt ((lawful_cons_iff.1 htail).1.markAt hu)
      rw [List.flatMap_cons] at hclear
      obtain ⟨next, hstands⟩ := hobeys.stands hfirst hclear hmarked
      obtain ⟨final, hreads⟩ := ih htail (fun u hu => hne u (List.mem_cons_of_mem t hu))
        hapart.tail (hstands.clear before) next
      exact ⟨final, .cons hstands hreads⟩

/-- A source is cut correctly in exactly one way, and a scan that leaves markup alone finds it. -/
theorem scan_segments (source : List Char) :
    ∃ r, scan source false = .ok r ∧ ∀ ts, Segments source ts ↔ ts = r.tokens := by
  obtain ⟨tokens, final, hreads⟩ := exists_reads_plain .code source
  have hscan : scan source false = .ok ⟨tokens, { mode := final }⟩ :=
    scan_eq_ok_iff.2 ⟨final, hreads, rfl⟩
  have hstart : ∀ rest, Clear [] rest := fun _ hcolon => by cases hcolon
  refine ⟨_, hscan, fun ts => ⟨fun h => ?_, ?_⟩⟩
  · obtain ⟨final', hreads'⟩ := h.lawful.reads h.nonempty h.apart (hstart _) .code
    rw [h.spells] at hreads'
    exact hreads'.unique hreads
  · rintro rfl
    exact ⟨hreads.flatMap_text, hreads.text_ne_nil, hreads.isChain_code, hreads.lawful (hstart _)⟩

end ElementBundle.Source
