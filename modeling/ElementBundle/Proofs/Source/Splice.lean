import ElementBundle.Proofs.Markup.Rescan
import ElementBundle.Proofs.Source.Lossless

/-! # Chains in front of another text

Without markup a token looks at most two characters ahead. So the tokens in
front of a text are read again in front of any other text that goes on in the
same way, or that goes on without a slash or a star: `Reads.splice`.
-/

namespace ElementBundle.Source

open ElementBundle.Text ElementBundle.Markup

/-! ## Texts that go on alike -/

/-- Tokens in front of the first text are read again in front of the second: a slash or a star at
its front, and a slash behind it, stand in the first one too, and it ends no line or text that goes
on. -/
structure Alike (s s' : List Char) : Prop where
  stop : s = [] → s' = []
  lineEnd : s.head? = some '\n' → s' = [] ∨ s'.head? = some '\n'
  mark : ∀ {d : Char} {u' : List Char}, s' = d :: u' → d = '/' ∨ d = '*' →
    ∃ u, s = d :: u ∧ (u'.head? = some '/' → u.head? = some '/')

theorem alike_nil (s : List Char) : Alike s [] :=
  ⟨fun _ => rfl, fun _ => .inl rfl, fun h => nomatch h⟩

theorem Alike.cons (c : Char) {s s' : List Char} (h : Alike s s') : Alike (c :: s) (c :: s') := by
  refine ⟨nofun, fun hc => .inr hc, ?_⟩
  intro d u' hs hd
  obtain ⟨rfl, rfl⟩ := List.cons.inj hs
  refine ⟨s, rfl, fun hslash => ?_⟩
  obtain ⟨v', hv'⟩ := List.head?_eq_some_iff.1 hslash
  obtain ⟨v, rfl, -⟩ := h.mark hv' (.inl rfl)
  rfl

theorem Alike.append (text : List Char) {s s' : List Char} (h : Alike s s') :
    Alike (text ++ s) (text ++ s') := by
  induction text with
  | nil => exact h
  | cons c text ih => exact ih.cons c

theorem alike_of_two (c d : Char) (s s' : List Char) : Alike (c :: d :: s) (c :: d :: s') := by
  refine ⟨nofun, fun hc => .inr hc, ?_⟩
  intro e u' hs he
  obtain ⟨rfl, rfl⟩ := List.cons.inj hs
  exact ⟨_, rfl, id⟩

/-- Texts are alike that start with the same character, if it starts no comment. -/
theorem alike_of_head {c : Char} (hslash : c ≠ '/') (hstar : c ≠ '*') (s s' : List Char) :
    Alike (c :: s) (c :: s') := by
  refine ⟨nofun, fun hc => .inr hc, ?_⟩
  intro d u' hs hd
  obtain ⟨rfl, rfl⟩ := List.cons.inj hs
  rcases hd with rfl | rfl
  · exact absurd rfl hslash
  · exact absurd rfl hstar

/-- A character that completes no mark may stand in place of one that ends no line. -/
theorem alike_of_ne {c d : Char} (hc : c ≠ '\n') (hslash : d ≠ '/') (hstar : d ≠ '*')
    (s s' : List Char) : Alike (c :: s) (d :: s') := by
  refine ⟨nofun, fun h => absurd (Option.some.inj h) hc, ?_⟩
  intro e u' hs he
  obtain ⟨rfl, rfl⟩ := List.cons.inj hs
  rcases he with rfl | rfl
  · exact absurd rfl hslash
  · exact absurd rfl hstar

/-- In place of two slashes any text may stand that starts with no star. -/
theorem alike_of_slashes (u z : List Char) {s : List Char} (h : u = [] → s.head? ≠ some '*') :
    Alike (u ++ '/' :: '/' :: z) (u ++ s) := by
  match u with
  | [] =>
      refine ⟨nofun, fun hc => absurd (Option.some.inj hc) (by decide), ?_⟩
      rintro d u' hs (rfl | rfl)
      · exact ⟨_, rfl, fun _ => rfl⟩
      · obtain rfl : s = '*' :: u' := hs
        exact absurd rfl (h rfl)
  | [c] =>
      refine ⟨nofun, fun hc => .inr hc, ?_⟩
      intro d u' hs hd
      obtain ⟨rfl, rfl⟩ := List.cons.inj hs
      exact ⟨_, rfl, fun _ => rfl⟩
  | c :: d :: u => exact alike_of_two c d _ _

/-- A mark in front of the second text is one in front of the first. -/
theorem opener?_eq_none_of_alike {afterColon : Bool} {c : Char} {s s' : List Char}
    (h : Alike s s') (hnone : opener? false afterColon c s = none) :
    opener? false afterColon c s' = none := by
  cases ho : opener? false afterColon c s' with
  | none => rfl
  | some o =>
      obtain ⟨-, rfl, rfl, u, hu⟩ | ⟨-, rfl, u, hu⟩ | ⟨-, hq⟩ | ⟨_, _, -, hm, -⟩ :=
        opener?_cases ho
      · obtain ⟨v, rfl, -⟩ := h.mark hu (.inl rfl)
        simp at hnone
      · obtain ⟨v, rfl, -⟩ := h.mark hu (.inr rfl)
        simp at hnone
      · rw [opener?_quote hq] at hnone
        cases hnone
      · cases hm

theorem unmarked_of_alike {afterColon : Bool} {text s s' : List Char} (h : Alike s s')
    (hu : Unmarked false afterColon text s) : Unmarked false afterColon text s' := by
  induction text generalizing afterColon with
  | nil => trivial
  | cons c text ih => exact ⟨opener?_eq_none_of_alike (h.append text) hu.1, ih hu.2⟩

/-! ## Splicing -/

/-- Only an empty text remembers the mode in which reading starts. -/
theorem Reads.of_ne_nil {markup : Bool} {mode final : Mode} {s : List Char} {ts : List Token}
    (h : Reads markup mode s ts final) (hs : s ≠ []) (mode' : Mode) :
    Reads markup mode' s ts final := by
  cases h with
  | nil => exact absurd rfl hs
  | cons head tail => exact .cons head tail

theorem Stands.splice {t : Token} {next mode final : Mode} {rest rest' : List Char}
    {us : List Token} (h : Stands false t next rest) (halike : Alike rest rest')
    (hne : rest' ≠ []) (hrest : Reads false .code rest' us final) :
    Reads false mode (t.text ++ rest') (t.push us) final := by
  cases h with
  | @code text _ nonempty unmarked marked =>
      refine hrest.push_code nonempty (unmarked_of_alike halike unmarked) ?_
      rintro hcolon u rfl
      change colonAfter false text = true at hcolon
      obtain ⟨v, rfl, hv⟩ := halike.mark rfl (.inl rfl)
      obtain ⟨w, rfl⟩ := List.head?_eq_some_iff.1 (hv rfl)
      rw [hcolon] at marked
      simp [Marked, opener?] at marked
  | @lineComment body _ oneLine stop =>
      have hstop : rest'.head? = some '\n' := by
        rcases stop with hnil | hfeed
        · exact absurd (halike.stop hnil) hne
        · exact (halike.lineEnd hfeed).resolve_left hne
      have hstands : Stands false (.lineComment ('/' :: '/' :: body)) .code rest' := by
        have hline : Stands false (.lineComment ('/' :: '/' :: body))
            (if rest'.isEmpty then .lineComment else .code) rest' := .lineComment oneLine (.inr hstop)
        rwa [if_neg (by simpa using hne)] at hline
      exact .cons hstands hrest
  | blockComment first => exact .cons (.blockComment first) hrest
  | openBlockComment => exact absurd (halike.stop rfl) hne
  | string quote closed => exact .cons (.string quote closed) hrest
  | openString => exact absurd (halike.stop rfl) hne
  | markup on => cases on

theorem Reads.splice {mode final final' : Mode} {s rest' : List Char} {xs ys us : List Token}
    (h : Reads false mode s (xs ++ ys) final)
    (halike : Alike (ys.flatMap Token.text) rest') (hne : rest' ≠ [])
    (hrest : Reads false .code rest' us final') :
    Reads false mode (xs.flatMap Token.text ++ rest') (xs.foldr Token.push us) final' := by
  induction xs generalizing mode s with
  | nil => exact hrest.of_ne_nil hne mode
  | cons t xs ih =>
      obtain ⟨next, head, tail⟩ := h.uncons
      rw [List.append_eq, List.flatMap_append] at head
      have htail := (ih tail).of_ne_nil (List.append_ne_nil_of_right_ne_nil _ hne) .code
      rw [List.flatMap_cons, List.append_assoc, List.foldr_cons]
      exact head.splice (halike.append _) (List.append_ne_nil_of_right_ne_nil _ hne) htail

theorem foldr_push_of_isChain {ts us : List Token}
    (h : (ts ++ us).IsChain fun a b => ¬ (a.isCode = true ∧ b.isCode = true)) :
    ts.foldr Token.push us = ts ++ us := by
  induction ts with
  | nil => rfl
  | cons t ts ih =>
      rw [List.foldr_cons, ih h.tail, List.cons_append]
      generalize hvs : ts ++ us = vs
      fun_cases Token.push t vs with
      | case1 a b vs =>
          rw [List.cons_append, hvs] at h
          exact absurd ⟨rfl, rfl⟩ (List.isChain_cons_cons.1 h).1
      | case2 => rfl

/-- A chain can be cut behind any character of its code that is neither a slash nor a star. -/
theorem Reads.take_code {mode final : Mode} {s w x : List Char} {c : Char} {a b : List Token}
    (h : Reads false mode s (a ++ .code (w ++ c :: x) :: b) final) (hline : c ≠ '\n')
    (hslash : c ≠ '/') (hstar : c ≠ '*') :
    Reads false mode (a.flatMap Token.text ++ (w ++ [c])) (a ++ [.code (w ++ [c])]) .code := by
  have hne : w ++ [c] ≠ [] := List.append_ne_nil_of_right_ne_nil w (List.cons_ne_nil c [])
  have halike : Alike ((Token.code (w ++ c :: x) :: b).flatMap Token.text) (w ++ [c]) := by
    have happart : Alike (c :: (x ++ b.flatMap Token.text)) [c] :=
      alike_of_ne hline hslash hstar _ _
    simpa [Token.text] using happart.append w
  have hlast : Reads false .code (w ++ [c]) [.code (w ++ [c])] .code := by
    obtain ⟨mid, hmid⟩ := h.drop
    obtain ⟨next, head, -⟩ := hmid.uncons
    cases head with
    | code nonempty unmarked marked =>
        have hsplit : w ++ c :: x = (w ++ [c]) ++ x := by simp
        rw [hsplit] at unmarked
        have hcut : Unmarked false false (w ++ [c]) [] :=
          unmarked_of_alike (alike_nil _) (unmarked_append.1 unmarked).1
        have hstands : Stands false (.code (w ++ [c])) .code [] := .code hne hcut trivial
        have hreads : Reads false .code ((w ++ [c]) ++ []) [.code (w ++ [c])] .code :=
          .cons hstands (.nil .code)
        rwa [List.append_nil] at hreads
  have hchain : (a ++ [Token.code (w ++ [c])]).IsChain
      fun a b => ¬ (a.isCode = true ∧ b.isCode = true) := by
    obtain ⟨hfront, -, hjoin⟩ := List.isChain_append.1 h.isChain_code
    refine List.isChain_append.2 ⟨hfront, .singleton _, fun t ht u hu => ?_⟩
    obtain rfl := Option.some.inj hu
    exact hjoin t ht (.code (w ++ c :: x)) rfl
  rw [← foldr_push_of_isChain hchain]
  exact h.splice halike hne hlast

end ElementBundle.Source
