import ElementBundle.Proofs.Source.Calculus
import Mathlib.Algebra.GroupWithZero.Nat
import Mathlib.Data.List.Chain

/-! # Lossless scans

The tokens of a scan spell its source, and the places given to them are their
real ones: a token's offset and line are those of its text in the source. Runs
of code are as long as possible, so no two of them meet.
-/

namespace ElementBundle.Source

open ElementBundle.Text ElementBundle.Markup

/-! ## Runs of code are maximal -/

def Token.isCode : Token → Bool
  | .code _ => true
  | _ => false

theorem Stands.isCode_eq_false_of_marked {markup afterColon : Bool} {t : Token} {mode : Mode}
    {rest : List Char} (h : Stands markup t mode rest)
    (hmark : Marked markup afterColon (t.text ++ rest)) : t.isCode = false := by
  cases h with
  | @code text _ nonempty unmarked _ =>
      obtain ⟨c, text, rfl⟩ := List.exists_cons_of_ne_nil nonempty
      have hnone := opener?_eq_none_of_not_afterColon unmarked.1 afterColon
      have hsome : (opener? markup afterColon c (text ++ rest)).isSome = true := hmark
      rw [hnone] at hsome
      cases hsome
  | _ => rfl

theorem Stands.marked_of_isCode {markup : Bool} {t : Token} {mode : Mode} {rest : List Char}
    (h : Stands markup t mode rest) (ht : t.isCode = true) :
    ∃ afterColon, Marked markup afterColon rest := by
  cases h with
  | code _ _ marked => exact ⟨_, marked⟩
  | _ => cases ht

theorem Reads.isChain_code {markup : Bool} {mode final : Mode} {s : List Char} {ts : List Token}
    (h : Reads markup mode s ts final) :
    ts.IsChain fun a b => ¬ (a.isCode = true ∧ b.isCode = true) := by
  induction h with
  | nil mode => exact .nil
  | @cons mode next final t rest ts head tail ih =>
      cases tail with
      | nil => exact .singleton t
      | @cons _ _ _ u rest' us head' tail' =>
          refine .cons_cons ?_ ih
          rintro ⟨ht, hu⟩
          obtain ⟨afterColon, marked⟩ := head.marked_of_isCode ht
          rw [head'.isCode_eq_false_of_marked marked] at hu
          cases hu

/-! ## Places -/

theorem map_token_placeFrom (offset line : Nat) (ts : List Token) :
    (placeFrom offset line ts).map Placed.token = ts := by
  induction ts generalizing offset line with
  | nil => rfl
  | cons t ts ih => simp [placeFrom, ih]

/-- The place of a token follows from the text of the tokens in front of it. -/
theorem getElem?_placeFrom (offset line : Nat) (ts : List Token) (k : Nat) :
    (placeFrom offset line ts)[k]? = ts[k]?.map fun t =>
      ⟨t, offset + ((ts.take k).flatMap Token.text).length,
        line + newlines ((ts.take k).flatMap Token.text)⟩ := by
  induction ts generalizing offset line k with
  | nil => simp [placeFrom]
  | cons t ts ih =>
      cases k with
      | zero => simp [placeFrom, newlines]
      | succ k =>
          simp [placeFrom, ih, newlines, Nat.add_assoc]

/-- A token in the middle of a list is a slice of what the list spells. -/
theorem slice_flatMap_text {ts : List Token} {k : Nat} {t : Token} (h : ts[k]? = some t) :
    let before := (ts.take k).flatMap Token.text
    (ts.flatMap Token.text).take before.length = before ∧
      ((ts.flatMap Token.text).take (before.length + t.text.length)).drop before.length =
        t.text := by
  intro before
  obtain ⟨hk, rfl⟩ := List.getElem?_eq_some_iff.1 h
  have hsplit : ts.flatMap Token.text =
      before ++ (ts[k].text ++ (ts.drop (k + 1)).flatMap Token.text) := by
    calc
      ts.flatMap Token.text = (ts.take k ++ ts.drop k).flatMap Token.text := by
        rw [List.take_append_drop]
      _ = before ++ (ts[k].text ++ (ts.drop (k + 1)).flatMap Token.text) := by
        rw [List.drop_eq_getElem_cons hk, List.flatMap_append, List.flatMap_cons]
  rw [hsplit]
  refine ⟨List.take_left, ?_⟩
  rw [← List.append_assoc, ← List.length_append, List.take_left, List.drop_left]

/-- The tokens of a scan spell the source without a gap or an overlap, each at its own offset and
line, and no two runs of code are neighbours. -/
theorem scan_lossless {source : List Char} {markup : Bool} {r : Scan}
    (h : scan source markup = .ok r) :
    r.tokens.flatMap Token.text = source ∧
    (∀ t ∈ r.tokens, t.text ≠ []) ∧
    (place r.tokens).map Placed.token = r.tokens ∧
    (∀ k p, (place r.tokens)[k]? = some p →
      p.offset = ((r.tokens.take k).map fun t => t.text.length).sum ∧
      p.token.text = (source.take p.stop).drop p.offset ∧
      p.line = 1 + (source.take p.offset).count '\n') ∧
    r.tokens.IsChain fun a b => ¬ (a.isCode = true ∧ b.isCode = true) := by
  obtain ⟨final, hreads, -⟩ := scan_eq_ok_iff.1 h
  have htext := hreads.flatMap_text
  refine ⟨htext, hreads.text_ne_nil, map_token_placeFrom 0 1 r.tokens, ?_, hreads.isChain_code⟩
  intro k p hp
  rw [place, getElem?_placeFrom, Option.map_eq_some_iff] at hp
  obtain ⟨t, ht, rfl⟩ := hp
  obtain ⟨hbefore, hslice⟩ := slice_flatMap_text ht
  rw [htext] at hbefore hslice
  refine ⟨?_, ?_, ?_⟩
  · rw [Nat.zero_add, List.length_flatMap]
  · simp only [Placed.stop, Nat.zero_add]
    exact hslice.symm
  · simp only [Nat.zero_add, hbefore, newlines]

/-- A source with slashes after a colon, a comment, a block on its second line, and a string that
stays open behind a backslash. -/
theorem scan_lossless_openString :
    let source := "a://b // c\n<p>\x7bx\x7d</p>'\\".toList
    let tokens : List Token := [.code "a://b ".toList, .lineComment "// c".toList, .code ['\n'],
      .markup "<p>\x7bx\x7d</p>".toList
        ⟨['p'], [.text "<p>".toList], [.expression ['x']], [.text "</p>".toList]⟩,
      .string "'\\".toList]
    scan source true = .ok ⟨tokens, { mode := .string '\'' }⟩ ∧
      (place tokens).map (fun p => (p.offset, p.line)) =
        [(0, 1), (6, 1), (10, 1), (11, 2), (21, 2)] ∧
      tokens.flatMap Token.text = source ∧
      tokens.IsChain fun a b => ¬ (a.isCode = true ∧ b.isCode = true) := by
  intro source tokens
  have h : scan source true = .ok ⟨tokens, { mode := .string '\'' }⟩ := by decide +kernel
  obtain ⟨htext, -, -, -, hchain⟩ := scan_lossless h
  exact ⟨h, by decide +kernel, htext, hchain⟩

end ElementBundle.Source
