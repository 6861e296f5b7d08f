import ElementBundle.Proofs.Markup.Literal
import ElementBundle.Proofs.Markup.Parts
import Mathlib.Data.List.Infix

/-! # What a template literal spells

`decode` reads the body of a template literal as the script language does: a
backslash spells the character behind it, `$` in front of a brace starts a
substitution, and a bare backtick ends the body. The bodies that parts are
rendered to spell their texts and expressions again. A comment is written as it
is, so the body spells it exactly if nothing in it means anything to a literal
(`Inert`).
-/

namespace ElementBundle.Markup

open ElementBundle.Source

/-! ## Decoding -/

/-- A character that a literal spells, or an expression that it puts in. -/
inductive Piece where
  | char (c : Char)
  | substitution (s : List Char)
  deriving DecidableEq, Repr

/-- Puts pieces in front of what has been decoded. -/
def ahead (front : List Piece) (x : Option (List Piece × List Char)) :
    Option (List Piece × List Char) :=
  x.map fun (pieces, rest) => (front ++ pieces, rest)

/-- The pieces of the body at the front of a text, and the rest from the backtick on that ends it. A
substitution that is not closed spells nothing. -/
def decode : List Char → Option (List Piece × List Char)
  | [] => some ([], [])
  | '`' :: s => some ([], '`' :: s)
  | ['\\'] => some ([.char '\\'], [])
  | '\\' :: c :: s => ahead [.char c] (decode s)
  | '$' :: '{' :: s =>
    match _h : readExpression 1 none s with
    | .error _ => none
    | .ok (inside, rest) => ahead [.substitution inside] (decode rest)
  | c :: s => ahead [.char c] (decode s)
termination_by s => s.length
decreasing_by
  · simp only [List.length_cons]
    omega
  · have := congrArg List.length (readExpression_eq_ok _h)
    simp only [List.length_append, List.length_cons] at this ⊢
    omega
  · simp

theorem ahead_nil (x : Option (List Piece × List Char)) : ahead [] x = x := by
  cases x <;> rfl

theorem ahead_append (a b : List Piece) (x : Option (List Piece × List Char)) :
    ahead (a ++ b) x = ahead a (ahead b x) := by
  cases x <;> simp [ahead]

theorem ahead_eq_some {front pieces : List Piece} {x : Option (List Piece × List Char)}
    {rest : List Char} (h : ahead front x = some (pieces, rest)) :
    ∃ back, x = some (back, rest) ∧ pieces = front ++ back := by
  obtain ⟨⟨back, r⟩, hx, he⟩ := Option.map_eq_some_iff.1 h
  cases he
  exact ⟨back, hx, rfl⟩

theorem decode_nil : decode [] = some ([], []) := by
  rw [decode]

theorem decode_tick (s : List Char) : decode ('`' :: s) = some ([], '`' :: s) := by
  rw [decode]

theorem decode_escape (c : Char) (s : List Char) :
    decode ('\\' :: c :: s) = ahead [.char c] (decode s) := by
  rw [decode]

theorem decode_substitution {s inside rest : List Char}
    (h : readExpression 1 none s = .ok (inside, rest)) :
    decode ('$' :: '{' :: s) = ahead [.substitution inside] (decode rest) := by
  rw [decode]
  split
  · rename_i e he
    cases he.symm.trans h
  · rename_i a r hr
    cases hr.symm.trans h
    rfl

theorem decode_plain {c : Char} {s : List Char} (htick : c ≠ '`') (hslash : c ≠ '\\')
    (hdollar : c = '$' → s.head? ≠ some '{') : decode (c :: s) = ahead [.char c] (decode s) := by
  rw [decode]
  · exact htick
  · exact fun h => absurd h hslash
  · exact fun _ _ h => absurd h hslash
  · rintro s' rfl rfl
    exact hdollar rfl rfl

/-- A body that spells a character first has read it as it is, or behind a backslash. -/
theorem decode_cons_char {c e : Char} {s rest : List Char} {pieces : List Piece}
    (h : decode (c :: s) = some (.char e :: pieces, rest)) (hs : s ≠ []) :
    (c = '\\' ∧ ∃ s', s = e :: s' ∧ decode s' = some (pieces, rest)) ∨
      (c ≠ '`' ∧ c ≠ '\\' ∧ (c = '$' → s.head? ≠ some '{') ∧ c = e ∧
        decode s = some (pieces, rest)) := by
  have inv : ∀ {p : Piece} {s' : List Char},
      ahead [p] (decode s') = some (.char e :: pieces, rest) →
      p = .char e ∧ decode s' = some (pieces, rest) := by
    intro p s' hp
    obtain ⟨back, hback, hcons⟩ := ahead_eq_some hp
    cases hcons
    exact ⟨rfl, hback⟩
  obtain ⟨d, t, rfl⟩ := List.exists_cons_of_ne_nil hs
  by_cases hslash : c = '\\'
  · subst hslash
    rw [decode_escape] at h
    obtain ⟨hd, ht⟩ := inv h
    cases hd
    exact .inl ⟨rfl, t, rfl, ht⟩
  · by_cases htick : c = '`'
    · subst htick
      rw [decode_tick] at h
      cases h
    · by_cases hopen : c = '$' ∧ d = '{'
      · obtain ⟨rfl, rfl⟩ := hopen
        rw [decode] at h
        split at h
        · cases h
        · cases (inv h).1
      · have hdollar : c = '$' → (d :: t).head? ≠ some '{' := by
          intro hc hd
          exact hopen ⟨hc, Option.some.inj hd⟩
        rw [decode_plain htick hslash hdollar] at h
        obtain ⟨hc, ht⟩ := inv h
        cases hc
        exact .inr ⟨htick, hslash, hdollar, rfl, ht⟩

/-! ## Texts and expressions -/

theorem head?_escapeTemplate {s tail : List Char} (hs : s ≠ [])
    (h : (escapeTemplate s ++ tail).head? = some '{') : s.head? = some '{' := by
  fun_induction escapeTemplate s with
  | case1 => exact absurd rfl hs
  | case2 => cases h
  | case3 => cases h
  | case4 => cases h
  | case5 => exact h

/-- An escaped text spells the text, unless a brace behind it makes its last `$` a substitution. -/
theorem decode_escapeTemplate {s tail : List Char}
    (h : s.getLast? = some '$' → tail.head? ≠ some '{') :
    decode (escapeTemplate s ++ tail) = ahead (s.map .char) (decode tail) := by
  have behind : ∀ {c : Char} {s : List Char}, s.getLast? = some '$' →
      (c :: s).getLast? = some '$' := by
    intro c s hs
    rw [List.getLast?_cons, hs]
    rfl
  fun_induction escapeTemplate s with
  | case1 => exact (ahead_nil _).symm
  | case2 s ih =>
      rw [List.cons_append, List.cons_append, decode_escape, ih fun hs => h (behind hs)]
      exact (ahead_append _ _ _).symm
  | case3 s ih =>
      rw [List.cons_append, List.cons_append, decode_escape, ih fun hs => h (behind hs)]
      exact (ahead_append _ _ _).symm
  | case4 s ih =>
      have hbrace : decode ('{' :: (escapeTemplate s ++ tail)) =
          ahead [.char '{'] (decode (escapeTemplate s ++ tail)) :=
        decode_plain (by decide) (by decide) (by simp)
      rw [List.cons_append, List.cons_append, List.cons_append, decode_escape, hbrace,
        ih fun hs => h (behind (behind hs)), ← ahead_append, ← ahead_append]
      rfl
  | case5 c s hslash htick hdollar ih =>
      have hopen : c = '$' → (escapeTemplate s ++ tail).head? ≠ some '{' := by
        intro hc hhead
        cases s with
        | nil => exact h (by rw [hc]; rfl) hhead
        | cons d s =>
            have hd := head?_escapeTemplate (List.cons_ne_nil d s) hhead
            exact hdollar s hc (by rw [Option.some.inj hd])
      rw [List.cons_append, decode_plain htick hslash hopen, ih fun hs => h (behind hs)]
      exact (ahead_append _ _ _).symm

/-! ## Inert texts -/

/-- Nothing in a text means anything to a template literal. -/
structure Inert (s : List Char) : Prop where
  backslash : '\\' ∉ s
  tick : '`' ∉ s
  dollar : ¬ ['$', '{'] <:+: s

instance (s : List Char) : Decidable (Inert s) :=
  decidable_of_iff ('\\' ∉ s ∧ '`' ∉ s ∧ ¬ ['$', '{'] <:+: s)
    ⟨fun ⟨backslash, tick, dollar⟩ => ⟨backslash, tick, dollar⟩,
      fun ⟨backslash, tick, dollar⟩ => ⟨backslash, tick, dollar⟩⟩

theorem Inert.of_part {s t : List Char} (h : Inert t) (hs : s <:+: t) : Inert s :=
  ⟨fun hx => h.backslash (hs.subset hx), fun hx => h.tick (hs.subset hx),
    fun hx => h.dollar (hx.trans hs)⟩

theorem inert_cons_iff {c : Char} {s : List Char} :
    Inert (c :: s) ↔
      c ≠ '`' ∧ c ≠ '\\' ∧ (c = '$' → s.head? ≠ some '{') ∧ Inert s := by
  have hfront : ['$', '{'] <+: c :: s ↔ c = '$' ∧ s.head? = some '{' := by
    cases s with
    | nil => simp
    | cons d s => simp [List.cons_prefix_cons, eq_comm]
  constructor
  · rintro ⟨hslash, htick, hdollar⟩
    rw [List.infix_cons_iff, hfront, not_or] at hdollar
    rw [List.mem_cons, not_or] at hslash htick
    refine ⟨htick.1 ∘ Eq.symm, hslash.1 ∘ Eq.symm, fun hc hs => hdollar.1 ⟨hc, hs⟩, ?_⟩
    exact ⟨hslash.2, htick.2, hdollar.2⟩
  · rintro ⟨htick, hslash, hdollar, hs⟩
    constructor
    · simp [hslash.symm, hs.backslash]
    · simp [htick.symm, hs.tick]
    · rw [List.infix_cons_iff, hfront, not_or]
      exact ⟨fun h => hdollar h.1 h.2, hs.dollar⟩

theorem escapeTemplate_of_inert {s : List Char} (h : Inert s) : escapeTemplate s = s := by
  fun_induction escapeTemplate s with
  | case1 => rfl
  | case2 s ih => exact absurd rfl (inert_cons_iff.1 h).2.1
  | case3 s ih => exact absurd rfl (inert_cons_iff.1 h).1
  | case4 s ih => exact absurd rfl ((inert_cons_iff.1 h).2.2.1 rfl)
  | case5 c s hslash htick hdollar ih => rw [ih (inert_cons_iff.1 h).2.2.2]

theorem inert_append_stop {s : List Char} : Inert (s ++ ['-', '-', '>']) ↔ Inert s := by
  induction s with
  | nil => exact ⟨fun _ => ⟨by simp, by simp, by simp⟩, fun _ => ⟨by decide, by decide, by decide⟩⟩
  | cons c s ih =>
      have hhead : (s ++ ['-', '-', '>']).head? = some '{' ↔ s.head? = some '{' := by
        cases s <;> simp
      simp only [List.cons_append, inert_cons_iff, ih, ne_eq, hhead]

theorem inert_comment_iff {s : List Char} :
    Inert (['<', '!', '-', '-'] ++ s ++ ['-', '-', '>']) ↔ Inert s := by
  rw [List.append_assoc]
  simp only [List.cons_append, List.nil_append, inert_cons_iff]
  rw [← inert_append_stop (s := s)]
  simp

/-- What lags behind by backslashes is never made up for: the next character would have to be one
more of them, behind a backslash that adds to the lag. -/
theorem not_spelled_of_lag {u more rest : List Char} {pieces : List Piece} (lag : Nat)
    (h : decode (u ++ '>' :: more) = some (pieces, rest)) :
    ¬ (List.replicate (lag + 1) '\\' ++ (u ++ ['>'])).map Piece.char <+: pieces := by
  rintro ⟨back, rfl⟩
  simp only [List.replicate_succ, List.cons_append, List.map_cons] at h
  induction u using escapedInduction generalizing lag with
  | nil =>
      rw [List.nil_append, decode_plain (by decide) (by decide) (by simp)] at h
      obtain ⟨_, -, hcons⟩ := ahead_eq_some h
      cases hcons
  | backslash =>
      rw [List.cons_append, List.nil_append, decode_escape] at h
      obtain ⟨_, -, hcons⟩ := ahead_eq_some h
      cases hcons
  | escape c s ih =>
      rw [List.cons_append, List.cons_append, decode_escape] at h
      obtain ⟨pieces, hpieces, hcons⟩ := ahead_eq_some h
      obtain ⟨hc, rfl⟩ := List.cons.inj hcons
      cases hc
      have shift : ∀ t, List.replicate lag '\\' ++ '\\' :: t =
          '\\' :: (List.replicate lag '\\' ++ t) := by
        intro t
        rw [← List.cons_append, ← List.replicate_succ, List.replicate_succ', List.append_assoc]
        rfl
      apply ih (lag + 1)
      rw [hpieces, List.replicate_succ, List.cons_append, List.cons_append, List.cons_append, shift,
        shift]
      rfl
  | plain c s hc ih =>
      rcases decode_cons_char h (by simp) with ⟨hslash, -⟩ | ⟨-, -, -, hslash, -⟩
      · exact hc hslash
      · exact hc hslash

/-- A text that is written as it is, and read as it is, is inert. -/
theorem inert_of_spelled {u more rest : List Char} {pieces : List Piece}
    (h : decode (u ++ '>' :: more) = some (pieces, rest))
    (hspelled : (u ++ ['>']).map Piece.char <+: pieces) : Inert u := by
  obtain ⟨back, rfl⟩ := hspelled
  induction u with
  | nil => exact ⟨by simp, by simp, by simp⟩
  | cons c u ih =>
      rcases decode_cons_char h (by simp) with
        ⟨rfl, s, hs, hdecode⟩ | ⟨htick, hslash, hdollar, -, hu⟩
      · cases u with
        | nil => cases hs
        | cons d u =>
            obtain ⟨rfl, rfl⟩ := List.cons.inj hs
            exact absurd (List.prefix_append _ _) (not_spelled_of_lag 0 hdecode)
      · refine inert_cons_iff.2 ⟨htick, hslash, fun hc hhead => hdollar hc ?_, ih hu⟩
        cases u with
        | nil => cases hhead
        | cons d u => exact hhead

/-! ## Parts -/

def Part.pieces : Part → List Piece
  | .text s => s.map .char
  | .expression s => [.substitution s]
  | .comment s => (['<', '!', '-', '-'] ++ s ++ ['-', '-', '>']).map .char

/-- Two texts of which the end and the start would make a substitution. -/
def Part.Fused (p q : Part) : Prop :=
  ∃ a b, p = .text (a ++ ['$']) ∧ q = .text ('{' :: b)

theorem decode_render {p : Part} {tail : List Char} (hp : p.Legible)
    (hinert : ∀ c, p = .comment c → Inert c)
    (htail : ∀ a, p = .text (a ++ ['$']) → tail.head? ≠ some '{') :
    decode (p.render ++ tail) = ahead p.pieces (decode tail) := by
  cases p with
  | text s =>
      apply decode_escapeTemplate
      intro hlast
      obtain ⟨a, rfl⟩ := List.getLast?_eq_some_iff.1 hlast
      exact htail a rfl
  | expression s =>
      have hbody : (Part.expression s).render ++ tail = '$' :: '{' :: (s ++ '}' :: tail) := by
        simp [Part.render]
      rw [hbody, decode_substitution (hp tail)]
      rfl
  | comment s =>
      have hs := inert_comment_iff.2 (hinert s rfl)
      rw [Part.render, Part.pieces, ← decode_escapeTemplate (by simp [List.getLast?_cons]),
        escapeTemplate_of_inert hs]

theorem head?_renderParts {parts : List Part} {tail : List Char}
    (hparts : ∀ p ∈ parts, p.Legible) (htail : tail.head? ≠ some '{')
    (h : (renderParts parts ++ tail).head? = some '{') :
    ∃ b ps, parts = .text ('{' :: b) :: ps := by
  cases parts with
  | nil => exact absurd h htail
  | cons p ps =>
      cases p with
      | text s =>
          have hs : s ≠ [] := hparts _ List.mem_cons_self
          rw [renderParts, List.flatMap_cons, List.append_assoc] at h
          obtain ⟨b, rfl⟩ := List.head?_eq_some_iff.1 (head?_escapeTemplate hs h)
          exact ⟨b, ps, rfl⟩
      | expression s => cases h
      | comment s => cases h

/-- Rendered parts spell what they are to spell, if nothing in their comments means anything. -/
theorem decode_renderParts {parts : List Part} {tail : List Char}
    (hparts : ∀ p ∈ parts, p.Legible) (hapart : parts.IsChain fun p q => ¬ p.Fused q)
    (hinert : ∀ c, .comment c ∈ parts → Inert c) (htail : tail.head? ≠ some '{') :
    decode (renderParts parts ++ tail) = ahead (parts.flatMap Part.pieces) (decode tail) := by
  induction parts with
  | nil => exact (ahead_nil _).symm
  | cons p parts ih =>
      have hrest := fun q hq => hparts q (List.mem_cons_of_mem p hq)
      have hfirst : decode (p.render ++ (renderParts parts ++ tail)) =
          ahead p.pieces (decode (renderParts parts ++ tail)) := by
        apply decode_render (hparts p List.mem_cons_self)
        · rintro c rfl
          exact hinert c List.mem_cons_self
        · rintro a rfl hhead
          obtain ⟨b, ps, rfl⟩ := head?_renderParts hrest htail hhead
          exact (List.isChain_cons_cons.1 hapart).1 ⟨a, b, rfl, rfl⟩
      rw [renderParts, List.flatMap_cons, List.append_assoc, List.flatMap_cons, ahead_append]
      rw [← ih hrest hapart.tail fun c hc => hinert c (List.mem_cons_of_mem p hc)]
      exact hfirst

theorem decode_comment {front : List Part} (hparts : ∀ p ∈ front, p.Legible)
    (hapart : front.IsChain fun p q => ¬ p.Fused q) (hinert : ∀ c, .comment c ∈ front → Inert c)
    (c : List Char) (back : List Part) (tail : List Char) :
    let place := front.flatMap Part.pieces ++ (Part.comment c).pieces
    (Inert c → decode (renderParts (front ++ .comment c :: back) ++ tail) =
      ahead place (decode (renderParts back ++ tail))) ∧
    (¬ Inert c → ∀ pieces rest,
      decode (renderParts (front ++ .comment c :: back) ++ tail) = some (pieces, rest) →
      ¬ place <+: pieces) := by
  have hfront : decode (renderParts (front ++ .comment c :: back) ++ tail) =
      ahead (front.flatMap Part.pieces)
        (decode ((Part.comment c).render ++ (renderParts back ++ tail))) := by
    rw [← decode_renderParts hparts hapart hinert (by simp [Part.render])]
    simp [renderParts]
  rw [hfront]
  constructor
  · intro hc
    have hlegible : (Part.comment c).Legible := trivial
    rw [ahead_append, decode_render hlegible (fun _ h => Part.comment.inj h ▸ hc) (by simp)]
  · intro hc pieces rest hdecode hplace
    obtain ⟨back', hback, rfl⟩ := ahead_eq_some hdecode
    rw [List.prefix_append_right_inj] at hplace
    have hbody : (Part.comment c).render ++ (renderParts back ++ tail) =
        (['<', '!', '-', '-'] ++ c ++ ['-', '-']) ++ '>' :: (renderParts back ++ tail) := by
      simp [Part.render]
    rw [hbody] at hback
    have hspelled := inert_of_spelled hback (by simpa [Part.pieces] using hplace)
    exact hc (hspelled.of_part ⟨_, _, rfl⟩)

/-- Parts of which a comment is not inert have a first such comment. -/
theorem exists_first_comment {parts : List Part} (h : ∃ c, .comment c ∈ parts ∧ ¬ Inert c) :
    ∃ front c back, parts = front ++ .comment c :: back ∧ ¬ Inert c ∧
      ∀ c, .comment c ∈ front → Inert c := by
  induction parts with
  | nil => simp at h
  | cons p parts ih =>
      by_cases hp : ∃ c, p = .comment c ∧ ¬ Inert c
      · obtain ⟨c, rfl, hc⟩ := hp
        exact ⟨[], c, parts, rfl, hc, by simp⟩
      · obtain ⟨c, hmem, hc⟩ := h
        have hrest : .comment c ∈ parts :=
          (List.mem_cons.1 hmem).resolve_left fun hcp => hp ⟨c, hcp.symm, hc⟩
        obtain ⟨front, c', back, rfl, hc', hfront⟩ := ih ⟨c, hrest, hc⟩
        refine ⟨p :: front, c', back, rfl, hc', fun d hd => ?_⟩
        rcases List.mem_cons.1 hd with rfl | hd
        · by_contra hinert
          exact hp ⟨d, rfl, hinert⟩
        · exact hfront d hd

/-- Rendered parts spell what they are to spell exactly if all their comments are inert. -/
theorem decode_renderParts_iff {parts : List Part} {tail : List Char}
    (hparts : ∀ p ∈ parts, p.Legible) (hapart : parts.IsChain fun p q => ¬ p.Fused q)
    (htail : decode tail = some ([], tail)) (hbrace : tail.head? ≠ some '{') :
    decode (renderParts parts ++ tail) = some (parts.flatMap Part.pieces, tail) ↔
      ∀ c, .comment c ∈ parts → Inert c := by
  constructor
  · intro hdecode
    by_contra hnot
    obtain ⟨front, c, back, rfl, hc, hfront⟩ := exists_first_comment (by simpa using hnot)
    have hplace := (decode_comment (fun p hp => hparts p (List.mem_append_left _ hp))
      (List.isChain_append.1 hapart).1 hfront c back tail).2 hc _ _ hdecode
    rw [List.flatMap_append, List.flatMap_cons, ← List.append_assoc] at hplace
    exact hplace (List.prefix_append _ _)
  · intro hinert
    rw [decode_renderParts hparts hapart hinert hbrace, htail]
    simp [ahead]

theorem LegibleParts.unfused {parts : List Part} (h : LegibleParts parts) :
    parts.IsChain fun p q => ¬ p.Fused q := by
  apply h.apart.imp
  rintro p q hpq ⟨a, b, rfl, rfl⟩
  rcases hpq with hp | hq
  · cases hp
  · cases hq

theorem Block.Legible.unfused {b : Block} (h : b.Legible) :
    b.parts.IsChain fun p q => ¬ p.Fused q := by
  have hcontent : (b.opening ++ b.content).IsChain fun p q => ¬ p.Fused q := by
    refine List.isChain_append.2 ⟨h.opening.unfused, h.content.unfused, ?_⟩
    rintro p hp q - ⟨a, d, rfl, -⟩
    obtain ⟨front, hfront⟩ := List.getLast?_eq_some_iff.1 hp
    have hstop := h.stop
    simp [hfront, Part.source, List.getLast?_append] at hstop
  refine List.isChain_append.2 ⟨hcontent, h.closing.unfused, ?_⟩
  rintro p - q hq ⟨a, d, -, rfl⟩
  obtain ⟨back, hback⟩ := List.head?_eq_some_iff.1 hq
  rcases h.start with hstart | hstart
  · simp [hback] at hstart
  · simp [hback, Part.source] at hstart

theorem legible_of_scan {source text : List Char} {r : Scan} {b : Block}
    (h : scan source = .ok r) (hb : .markup text b ∈ r.tokens) : b.Legible := by
  obtain ⟨final, hreads, -⟩ := scan_eq_ok_iff.1 h
  obtain ⟨front, back, htokens⟩ := List.append_of_mem hb
  rw [htokens] at hreads
  obtain ⟨mid, hmid⟩ := hreads.drop
  obtain ⟨next, hstands, -⟩ := hmid.uncons
  obtain ⟨tag, content, hopen, -, hblock⟩ := hstands.exists_readBlock
  exact legible_readBlock hopen hblock

/-- All the parts of a block, or those of its content, can be read back. -/
theorem Block.Legible.of_mem {b : Block} (h : b.Legible) {parts : List Part}
    (hparts : parts ∈ [b.parts, b.content]) :
    (∀ p ∈ parts, p.Legible) ∧ parts.IsChain fun p q => ¬ p.Fused q := by
  rcases List.mem_cons.1 hparts with rfl | hparts
  · refine ⟨fun p hp => ?_, h.unfused⟩
    rcases List.mem_append.1 hp with hp | hp
    · rcases List.mem_append.1 hp with hp | hp
      · exact h.opening.legible p hp
      · exact h.content.legible p hp
    · exact h.closing.legible p hp
  · obtain rfl := List.mem_singleton.1 hparts
    exact ⟨h.content.legible, h.content.unfused⟩

/-! ## Pieces as parts -/

def Piece.part : Piece → Part
  | .char c => .text [c]
  | .substitution s => .expression s

/-- The body at the front of a text in parts, in which texts that meet are joined, and the rest. -/
def decodeParts (s : List Char) : Option (List Part × List Char) :=
  (decode s).map fun (pieces, rest) => (Part.join (pieces.map Piece.part) [], rest)

theorem join_chars {s : List Char} (hs : s ≠ []) (ps : List Part) :
    Part.join ((s.map Piece.char).map Piece.part) ps = (Part.text s).push ps := by
  induction s with
  | nil => exact absurd rfl hs
  | cons c s ih =>
      by_cases hnil : s = []
      · rw [hnil]
        rfl
      · show (Part.text [c]).push (Part.join ((s.map Piece.char).map Piece.part) ps) = _
        rw [ih hnil, Part.push_text_push]
        rfl

theorem join_pieces {parts : List Part} (hparts : ∀ p ∈ parts, p.Legible)
    (hcomments : ∀ c, .comment c ∉ parts) :
    Part.join ((parts.flatMap Part.pieces).map Piece.part) [] = Part.join parts [] := by
  induction parts with
  | nil => rfl
  | cons p parts ih =>
      have hrest := ih (fun q hq => hparts q (List.mem_cons_of_mem p hq))
        fun c hc => hcomments c (List.mem_cons_of_mem p hc)
      have happend : Part.join (((p :: parts).flatMap Part.pieces).map Piece.part) [] =
          Part.join (p.pieces.map Piece.part) (Part.join parts []) := by
        rw [List.flatMap_cons, List.map_append, Part.join, List.foldr_append, ← Part.join,
          ← Part.join, hrest]
      rw [happend]
      cases p with
      | text s => exact join_chars (hparts _ List.mem_cons_self) _
      | expression s => rfl
      | comment s => exact absurd List.mem_cons_self (hcomments s)

theorem decodeParts_renderParts {parts : List Part} {tail : List Char}
    (hparts : ∀ p ∈ parts, p.Legible) (hunfused : parts.IsChain fun p q => ¬ p.Fused q)
    (hcomments : ∀ c, .comment c ∉ parts) (htail : decode tail = some ([], tail))
    (hbrace : tail.head? ≠ some '{') :
    decodeParts (renderParts parts ++ tail) = some (Part.join parts [], tail) := by
  have hinert : ∀ c, .comment c ∈ parts → Inert c := fun c hc => absurd hc (hcomments c)
  rw [decodeParts, decode_renderParts hparts hunfused hinert hbrace, htail]
  simp only [ahead, Option.map_some, List.append_nil, join_pieces hparts hcomments]

/-! ## Blocks -/

/-- The literal of a block without comments spells its parts, and so does that of its content: texts
and expressions come back as they are, in their order, and the literal ends at its own backtick. -/
theorem decode_block {source text : List Char} {r : Scan} {b : Block} {parts : List Part}
    (h : scan source = .ok r) (hb : .markup text b ∈ r.tokens)
    (hparts : parts ∈ [b.parts, b.content]) (hcomments : ∀ c, .comment c ∉ parts) :
    decodeParts (renderParts parts) = some (Part.join parts [], []) ∧
      ∀ rest, decodeParts (renderParts parts ++ '`' :: rest) =
        some (Part.join parts [], '`' :: rest) := by
  obtain ⟨hlegible, hunfused⟩ := (legible_of_scan h hb).of_mem hparts
  constructor
  · have hend := decodeParts_renderParts hlegible hunfused hcomments decode_nil (by simp)
    rwa [List.append_nil] at hend
  · intro rest
    exact decodeParts_renderParts hlegible hunfused hcomments (decode_tick rest) (by simp)

/-- A block with a backslash, a backtick, `$` in front of an expression, and a brace in quotes. -/
theorem decode_block_dollar :
    let source := "<p a=\x7by\x7d>\\`$\x7bx['\x7d`']\x7d$</p>".toList
    let b : Block := ⟨['p'], [.text "<p a=".toList, .expression ['y'], .text ['>']],
      [.text "\\`$".toList, .expression "x['\x7d`']".toList, .text ['$']], [.text "</p>".toList]⟩
    scan source = .ok ⟨[.markup source b], {}⟩ ∧
      decodeParts (renderParts b.parts) =
        some ([.text "<p a=".toList, .expression ['y'], .text ">\\`$".toList,
          .expression "x['\x7d`']".toList, .text "$</p>".toList], []) := by
  intro source b
  have hscan : scan source = .ok ⟨[.markup source b], {}⟩ := by decide +kernel
  have hcomments : ∀ c, .comment c ∉ b.parts := by simp [b, Block.parts]
  exact ⟨hscan, (decode_block hscan List.mem_cons_self List.mem_cons_self hcomments).1⟩

/-- A literal spells a block exactly if all comments are inert. More closely, a comment behind
inert ones is spelled where it stands exactly if it is inert itself, and then what follows it is
read as if it stood alone. -/
theorem decode_block_comment {source text : List Char} {r : Scan} {b : Block} {parts : List Part}
    (h : scan source = .ok r) (hb : .markup text b ∈ r.tokens)
    (hparts : parts ∈ [b.parts, b.content]) (rest : List Char) :
    (decode (renderParts parts ++ '`' :: rest) = some (parts.flatMap Part.pieces, '`' :: rest) ↔
      ∀ c, .comment c ∈ parts → Inert c) ∧
    ∀ front c back, parts = front ++ .comment c :: back → (∀ c', .comment c' ∈ front → Inert c') →
      let place := front.flatMap Part.pieces ++
        (['<', '!', '-', '-'] ++ c ++ ['-', '-', '>']).map Piece.char
      (Inert c → decode (renderParts parts ++ '`' :: rest) =
        ahead place (decode (renderParts back ++ '`' :: rest))) ∧
      (¬ Inert c → ∀ pieces rest',
        decode (renderParts parts ++ '`' :: rest) = some (pieces, rest') → ¬ place <+: pieces) := by
  obtain ⟨hlegible, hunfused⟩ := (legible_of_scan h hb).of_mem hparts
  refine ⟨decode_renderParts_iff hlegible hunfused (decode_tick rest) (by simp), ?_⟩
  rintro front c back rfl hfront
  exact decode_comment (fun p hp => hlegible p (List.mem_append_left _ hp))
    (List.isChain_append.1 hunfused).1 hfront c back ('`' :: rest)

/-- A comment with a backslash behind one that is inert. -/
theorem decode_block_comment_backslash :
    let source := "<p>\x7b/* a */\x7d\x7b/* \\b */\x7d</p>".toList
    let b : Block := ⟨['p'], [.text "<p>".toList], [.comment " a ".toList, .comment " \\b ".toList],
      [.text "</p>".toList]⟩
    scan source = .ok ⟨[.markup source b], {}⟩ ∧ Inert " a ".toList ∧ ¬ Inert " \\b ".toList ∧
      decode (renderParts b.content ++ ['`']) =
        ahead ("<!-- a -->".toList.map .char) (decode "<!-- \\b -->`".toList) ∧
      decode (renderParts b.content ++ ['`']) ≠ some (b.content.flatMap Part.pieces, ['`']) := by
  intro source b
  have hscan : scan source = .ok ⟨[.markup source b], {}⟩ := by decide +kernel
  have hinert : Inert " a ".toList := by decide
  have hbackslash : ¬ Inert " \\b ".toList := by decide
  obtain ⟨hiff, hplace⟩ := decode_block_comment hscan List.mem_cons_self
    (List.mem_cons_of_mem _ List.mem_cons_self) []
  refine ⟨hscan, hinert, hbackslash, ?_, fun h => hbackslash (hiff.1 h _ (by decide))⟩
  exact (hplace [] _ [.comment " \\b ".toList] rfl (by simp)).1 hinert

/-- A comment that holds a substitution is put in as one. -/
theorem comment_evaluated :
    let source := "<p>\x7b/* $\x7bx\x7d */\x7d</p>".toList
    let b : Block := ⟨['p'], [.text "<p>".toList], [.comment " $\x7bx\x7d ".toList],
      [.text "</p>".toList]⟩
    scan source = .ok ⟨[.markup source b], {}⟩ ∧
      decode (renderParts b.parts) = some ("<p><!-- ".toList.map .char ++ [.substitution ['x']] ++
        " --></p>".toList.map .char, []) ∧
      decode (renderParts b.parts) ≠ some ("<p><!-- $\x7bx\x7d --></p>".toList.map .char, []) := by
  decide +kernel

end ElementBundle.Markup
