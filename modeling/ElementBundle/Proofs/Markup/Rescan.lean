import ElementBundle.Proofs.Markup.Literal

/-! # Scanning the rewritten script

The rewritten script is scanned again, without markup. This second scan follows
the first one token by token: each block has become code, one string and code,
and all other tokens are as they were. Runs of code that meet are one run.

The step lemma `reads_onto` rests on what the two scans share about the text
behind a token: it is the same up to the next block, where one text goes on with
a tag and the other with plain code.
-/

namespace ElementBundle.Source

open ElementBundle.Text ElementBundle.Markup

/-! ## Runs of code that meet -/

/-- Puts a token in front; two runs of code in a row are joined. -/
def Token.push : Token → List Token → List Token
  | .code a, .code b :: ts => .code (a ++ b) :: ts
  | t, ts => t :: ts

def joinCode (ts : List Token) : List Token :=
  ts.foldr Token.push []

/-- Code in front is joined to code, and is a token of its own elsewhere. -/
theorem Token.push_code_cases (text : List Char) (ts : List Token) :
    (∃ b us, ts = .code b :: us ∧ Token.push (.code text) ts = .code (text ++ b) :: us) ∨
      (∀ b us, ts ≠ .code b :: us) ∧ Token.push (.code text) ts = .code text :: ts := by
  cases ts with
  | nil => exact .inr ⟨nofun, rfl⟩
  | cons u us =>
      cases u with
      | code b => exact .inl ⟨b, us, rfl, rfl⟩
      | _ => exact .inr ⟨nofun, rfl⟩

theorem Token.flatMap_text_push (t : Token) (ts : List Token) :
    (t.push ts).flatMap Token.text = t.text ++ ts.flatMap Token.text := by
  fun_cases Token.push t ts with
  | case1 a b ts => simp [Token.text]
  | case2 => rfl

theorem flatMap_text_joinCode (ts : List Token) :
    (joinCode ts).flatMap Token.text = ts.flatMap Token.text := by
  induction ts with
  | nil => rfl
  | cons t ts ih => rw [joinCode, List.foldr_cons, Token.flatMap_text_push, ← joinCode, ih]; rfl

/-- What is no code keeps the tokens in front of it apart from those behind it. -/
theorem foldr_push_string (ts : List Token) (text : List Char) (us : List Token) :
    ts.foldr Token.push (.string text :: us) = joinCode ts ++ .string text :: us := by
  induction ts with
  | nil => rfl
  | cons t ts ih =>
      have hpush : ∀ vs : List Token, t.push (vs ++ .string text :: us) =
          t.push vs ++ .string text :: us := by
        intro vs
        cases t <;> cases vs with
        | nil => rfl
        | cons v vs => cases v <;> rfl
      rw [List.foldr_cons, ih, hpush]
      rfl

/-- A character that is part of no mark, whatever stands around it, and no brace. -/
def isGlue (c : Char) : Bool :=
  !(['/', '*', ':', '\n', '\'', '"', '`', '{', '}'].contains c)

theorem unmarked_of_isGlue {s : List Char} (h : ∀ c ∈ s, isGlue c = true) (afterColon : Bool)
    (rest : List Char) : Unmarked false afterColon s rest := by
  induction s generalizing afterColon with
  | nil => trivial
  | cons c s ih =>
      refine ⟨?_, ih (fun d hd => h d (List.mem_cons_of_mem c hd)) (c == ':')⟩
      have hc := h c List.mem_cons_self
      simp only [isGlue, List.contains_cons, Bool.not_eq_true', Bool.or_eq_false_iff,
        beq_eq_false_iff_ne] at hc
      simp [opener?, isQuote, hc]

theorem colonAfter_of_isGlue {s : List Char} (h : ∀ c ∈ s, isGlue c = true) :
    colonAfter false s = false := by
  induction s with
  | nil => rfl
  | cons c s ih =>
      have hc : (c == ':') = false := by
        have hglue := h c List.mem_cons_self
        cases hcolon : c == ':' with
        | false => rfl
        | true =>
            rw [eq_of_beq hcolon] at hglue
            cases hglue
      rw [colonAfter, hc]
      exact ih fun d hd => h d (List.mem_cons_of_mem c hd)

/-- Without markup, a token that is no code starts at a mark, unless a colon hides it. -/
theorem Stands.marked {t : Token} {mode : Mode} {rest : List Char} {afterColon : Bool}
    (h : Stands false t mode rest) (ht : ∀ text, t ≠ .code text)
    (hcolon : afterColon = true → ∀ u, t.text ++ rest ≠ '/' :: '/' :: u) :
    Marked false afterColon (t.text ++ rest) := by
  cases h with
  | code => exact absurd rfl (ht _)
  | lineComment =>
      cases afterColon with
      | false => simp [Marked, Token.text]
      | true => exact absurd rfl (hcolon rfl _)
  | blockComment => simp [Marked, Token.text]
  | openBlockComment => simp [Marked, Token.text]
  | string quote => simp [Marked, Token.text, opener?_quote quote]
  | openString quote => simp [Marked, Token.text, opener?_quote quote]
  | markup on => cases on

/-- Code in front of a chain is a token of its own or lengthens the first one. -/
theorem Reads.push_code {mode final : Mode} {text rest : List Char} {us : List Token}
    (nonempty : text ≠ []) (unmarked : Unmarked false false text rest)
    (hcolon : colonAfter false text = true → ∀ u, rest ≠ '/' :: '/' :: u)
    (h : Reads false .code rest us final) :
    Reads false mode (text ++ rest) (Token.push (.code text) us) final := by
  cases h with
  | nil => exact .cons (.code nonempty unmarked trivial) (.nil .code)
  | @cons _ next _ u rest us head tail =>
      obtain ⟨b, _, hu, hpush⟩ | ⟨hu, hpush⟩ := Token.push_code_cases text (u :: us)
      · obtain ⟨rfl, rfl⟩ := List.cons.inj hu
        rw [hpush]
        cases head with
        | code nonempty' unmarked' marked' =>
            obtain ⟨c, b, rfl⟩ := List.exists_cons_of_ne_nil nonempty'
            have hb : Unmarked false (colonAfter false text) (c :: b) rest :=
              ⟨opener?_eq_none_of_not_afterColon unmarked'.1 _, unmarked'.2⟩
            have hstands : Stands false (.code (text ++ c :: b)) .code rest := by
              refine .code (List.append_ne_nil_of_left_ne_nil nonempty _)
                (unmarked_append.2 ⟨unmarked, hb⟩) ?_
              rw [colonAfter_append]
              exact marked'
            have hspell : text ++ ((Token.code (c :: b)).text ++ rest) =
                (Token.code (text ++ c :: b)).text ++ rest := by simp [Token.text]
            rw [hspell]
            exact .cons hstands tail
      · rw [hpush]
        have marked := head.marked (fun b hb => hu b us (by rw [hb])) hcolon
        exact .cons (.code nonempty unmarked marked) (.cons head tail)

theorem Reads.push_glue {mode final : Mode} {text rest : List Char} {us : List Token}
    (nonempty : text ≠ []) (glue : ∀ c ∈ text, isGlue c = true)
    (h : Reads false .code rest us final) :
    Reads false mode (text ++ rest) (Token.push (.code text) us) final := by
  refine h.push_code nonempty (unmarked_of_isGlue glue false rest) ?_
  rw [colonAfter_of_isGlue glue]
  exact fun hfalse => absurd hfalse Bool.false_ne_true

/-! ## Texts that end with a backtick -/

theorem Unmarked.isQuote_eq_false {markup afterColon : Bool} {text rest : List Char}
    (h : Unmarked markup afterColon text rest) : ∀ c ∈ text, isQuote c = false := by
  induction text generalizing afterColon with
  | nil => simp
  | cons d text ih =>
      intro c hc
      rcases List.mem_cons.1 hc with rfl | hc
      · cases hq : isQuote c with
        | false => rfl
        | true =>
            have hnone := h.1
            rw [opener?_quote hq] at hnone
            cases hnone
      · exact ih h.2 c hc

theorem opener?_plain_cons (afterColon : Bool) (c d : Char) (s s' : List Char) :
    opener? false afterColon c (d :: s) = opener? false afterColon c (d :: s') := by
  unfold opener?
  by_cases hslash : d = '/'
  · simp [hslash]
  · by_cases hstar : d = '*'
    · simp [hstar]
    · simp [hslash, hstar]

theorem Unmarked.append_right {afterColon : Bool} {text rest : List Char}
    (h : Unmarked false afterColon text rest) (hrest : rest ≠ []) (more : List Char) :
    Unmarked false afterColon text (rest ++ more) := by
  induction text generalizing afterColon with
  | nil => trivial
  | cons c text ih =>
      refine ⟨?_, ih h.2⟩
      obtain ⟨d, u, hu⟩ :=
        List.exists_cons_of_ne_nil (List.append_ne_nil_of_right_ne_nil text hrest)
      have hnone := h.1
      rw [← List.append_assoc, hu, List.cons_append]
      rwa [hu, opener?_plain_cons _ _ _ _ (u ++ more)] at hnone

theorem Marked.append_right {afterColon : Bool} {rest : List Char}
    (h : Marked false afterColon rest) (hrest : rest ≠ []) (more : List Char) :
    Marked false afterColon (rest ++ more) := by
  obtain ⟨c, s, rfl⟩ := List.exists_cons_of_ne_nil hrest
  obtain ⟨o, ho⟩ := Option.isSome_iff_exists.1 h
  obtain ⟨-, rfl, rfl, u, rfl⟩ | ⟨-, rfl, u, rfl⟩ | ⟨-, hq⟩ | ⟨_, _, -, hm, -⟩ := opener?_cases ho
  · simp [Marked]
  · simp [Marked]
  · simp [Marked, opener?_quote hq]
  · cases hm

theorem Stands.append_right {t : Token} {mode : Mode} {rest : List Char}
    (h : Stands false t mode rest) (hrest : rest ≠ []) (more : List Char) :
    Stands false t mode (rest ++ more) := by
  cases h with
  | code nonempty unmarked marked =>
      exact .code nonempty (unmarked.append_right hrest more) (marked.append_right hrest more)
  | @lineComment body _ oneLine stop =>
      obtain ⟨c, rest, rfl⟩ := List.exists_cons_of_ne_nil hrest
      have hstop : c :: rest ++ more = [] ∨ (c :: rest ++ more).head? = some '\n' :=
        .inr (stop.resolve_left hrest)
      exact (Stands.lineComment oneLine hstop :)
  | blockComment first => exact .blockComment first
  | openBlockComment => exact absurd rfl hrest
  | string quote closed => exact .string quote closed
  | openString => exact absurd rfl hrest
  | markup on => cases on

/-- A last token with a backtick that leaves the scanner in code is closed. -/
theorem Stands.closed_of_tick {t : Token} {mode : Mode} {rest : List Char}
    (h : Stands false t mode rest) (hrest : rest = []) (hmode : mode = .code)
    (htick : '`' ∈ t.text) (more : List Char) : Stands false t .code more := by
  cases h with
  | code nonempty unmarked marked =>
      exact absurd (unmarked.isQuote_eq_false _ htick) (by decide)
  | lineComment =>
      subst hrest
      cases hmode
  | blockComment first => exact .blockComment first
  | openBlockComment => cases hmode
  | string quote closed => exact .string quote closed
  | openString => cases hmode
  | markup on => cases on

/-- Chains can be put together behind a backtick that leaves the scanner in code. -/
theorem Reads.append_of_tick {mode final : Mode} {s more : List Char} {ts us : List Token}
    (h : Reads false mode s ts .code) (hs : s.getLast? = some '`')
    (hmore : Reads false .code more us final) : Reads false mode (s ++ more) (ts ++ us) final := by
  induction ts generalizing mode s with
  | nil =>
      have hnil : s = [] := h.flatMap_text.symm
      rw [hnil] at hs
      cases hs
  | cons t ts ih =>
      cases h with
      | @cons _ next _ _ rest _ head tail =>
          rw [List.append_assoc]
          by_cases hrest : rest = []
          · obtain ⟨rfl, hnext⟩ := tail.of_nil hrest
            rw [hrest, List.append_nil] at hs
            subst hrest
            exact .cons (head.closed_of_tick rfl hnext.symm (List.mem_of_getLast? hs) more) hmore
          · have hlast : rest.getLast? = some '`' := by
              obtain ⟨c, hc⟩ := Option.isSome_iff_exists.1 (List.getLast?_isSome.2 hrest)
              rw [List.getLast?_append, hc] at hs
              rw [hc]
              exact hs
            exact .cons (head.append_right hrest more) (ih tail hlast)

/-! ## Texts that agree up to a block -/

/-- Two texts are the same up to their ends, or up to a place where one goes on
with a tag and the other with plain code. -/
inductive SameFront : List Char → List Char → Prop
  | nil : SameFront [] []
  | cons (c : Char) {s s' : List Char} (tail : SameFront s s') : SameFront (c :: s) (c :: s')
  | block {c : Char} (glue : isGlue c = true) (s s' : List Char) :
      SameFront ('<' :: s) (c :: s')

theorem SameFront.append (text : List Char) {s s' : List Char} (h : SameFront s s') :
    SameFront (text ++ s) (text ++ s') := by
  induction text with
  | nil => exact h
  | cons c text ih => exact .cons c ih

theorem SameFront.isEmpty_eq {s s' : List Char} (h : SameFront s s') : s.isEmpty = s'.isEmpty := by
  cases h <;> rfl

theorem SameFront.lineEnd {s s' : List Char} (h : SameFront s s')
    (hs : s = [] ∨ s.head? = some '\n') : s' = [] ∨ s'.head? = some '\n' := by
  cases h <;> simp_all

theorem SameFront.head_of_not_isGlue {s s' : List Char} (h : SameFront s s') {c : Char}
    {u' : List Char} (hs : s' = c :: u') (hc : isGlue c = false) :
    ∃ u, s = c :: u ∧ SameFront u u' := by
  cases h with
  | nil => cases hs
  | cons d tail =>
      cases hs
      exact ⟨_, rfl, tail⟩
  | block glue s s' =>
      cases hs
      rw [glue] at hc
      cases hc

theorem opener?_eq_none_of_sameFront {afterColon : Bool} {c : Char} {s s' : List Char}
    (h : SameFront s s') (hnone : opener? true afterColon c s = none) :
    opener? false afterColon c s' = none := by
  cases ho : opener? false afterColon c s' with
  | none => rfl
  | some o =>
      obtain ⟨-, rfl, rfl, u, hu⟩ | ⟨-, rfl, u, hu⟩ | ⟨-, hq⟩ | ⟨_, _, -, hm, -⟩ :=
        opener?_cases ho
      · obtain ⟨v, rfl, -⟩ := h.head_of_not_isGlue hu (by decide)
        simp at hnone
      · obtain ⟨v, rfl, -⟩ := h.head_of_not_isGlue hu (by decide)
        simp at hnone
      · rw [opener?_quote hq] at hnone
        cases hnone
      · cases hm

theorem unmarked_of_sameFront {afterColon : Bool} {text s s' : List Char} (h : SameFront s s')
    (hu : Unmarked true afterColon text s) : Unmarked false afterColon text s' := by
  induction text generalizing afterColon with
  | nil => trivial
  | cons c text ih => exact ⟨opener?_eq_none_of_sameFront (h.append text) hu.1, ih hu.2⟩

theorem slashes_of_sameFront {s s' : List Char} (h : SameFront s s')
    (marked : Marked true true s) (u' : List Char) : s' ≠ '/' :: '/' :: u' := by
  intro hs
  obtain ⟨v, rfl, hv⟩ := h.head_of_not_isGlue hs (by decide)
  obtain ⟨u, rfl, -⟩ := hv.head_of_not_isGlue rfl (by decide)
  simp [Marked, opener?] at marked

end ElementBundle.Source

namespace ElementBundle.Markup

open ElementBundle.Source

/-! ## Blocks as tokens of the script -/

/-- The parts of a block that its literal holds. -/
def Renderer.rendered (r : Renderer) (b : Block) : List Part :=
  if r.selfTag = some b.name then b.content else b.parts

/-- The code in front of the literal of a block. -/
def Renderer.lead (r : Renderer) (b : Block) : List Char :=
  if r.selfTag = some b.name then "this.innerHTML = ".toList else r.helper ++ ['(']

def Renderer.literal (r : Renderer) (b : Block) : List Char :=
  '`' :: renderParts (r.rendered b) ++ ['`']

/-- The code behind the literal of a block, if there is any. -/
def Renderer.close (r : Renderer) (b : Block) : List Token :=
  if r.selfTag = some b.name then [] else [.code [')']]

/-- A token of the source as tokens of the script. -/
def Renderer.retoken (r : Renderer) : Token → List Token
  | .markup _ b => .code (r.lead b) :: .string (r.literal b) :: r.close b
  | t => [t]

/-- Puts a token of the source in front of tokens of the script. The tokens of
each literal are given. -/
def Renderer.onto (r : Renderer) (inner : Block → List Token) : Token → List Token → List Token
  | .markup _ b, us =>
      Token.push (.code (r.lead b)) (inner b ++ (r.close b).foldr Token.push us)
  | t, us => t.push us

/-- The literal of a token falls into the given tokens and leaves the scanner in code. -/
def Renderer.Shows (r : Renderer) (inner : Block → List Token) (t : Token) : Prop :=
  ∀ text b, t = .markup text b → Reads false .code (r.literal b) (inner b) .code

/-- Whether the literal of a token holds a backtick that no backslash hides. -/
def Renderer.leaks (r : Renderer) : Token → Bool
  | .markup _ b => (r.rendered b).any Part.leaks
  | _ => false

theorem Renderer.block_eq (r : Renderer) (b : Block) :
    r.block b = r.lead b ++ (r.literal b ++ (r.close b).flatMap Token.text) := by
  unfold Renderer.block Renderer.lead Renderer.literal Renderer.rendered Renderer.close
  split
  · have hlead : "this.innerHTML = `".toList = "this.innerHTML = ".toList ++ ['`'] := by decide
    rw [hlead]
    generalize "this.innerHTML = ".toList = lead
    simp
  · simp [Token.text]

theorem Renderer.flatMap_text_retoken (r : Renderer) (t : Token) :
    (r.retoken t).flatMap Token.text = r.token t := by
  cases t with
  | markup text b => exact (r.block_eq b).symm
  | _ => simp [Renderer.retoken, Renderer.token, Token.text]

theorem Renderer.flatMap_text_flatMap_retoken (r : Renderer) (ts : List Token) :
    (ts.flatMap r.retoken).flatMap Token.text = r.tokens ts := by
  rw [List.flatMap_assoc, funext r.flatMap_text_retoken]
  rfl

theorem Renderer.lead_ne_nil (r : Renderer) (b : Block) : r.lead b ≠ [] := by
  unfold Renderer.lead
  split
  · decide
  · simp

theorem Renderer.getLast?_literal (r : Renderer) (b : Block) :
    (r.literal b).getLast? = some '`' := by
  rw [Renderer.literal, List.getLast?_append]
  rfl

theorem Renderer.foldr_retoken (r : Renderer) (ts us : List Token) :
    (ts.flatMap r.retoken).foldr Token.push us =
      ts.foldr (r.onto fun b => [.string (r.literal b)]) us := by
  induction ts with
  | nil => rfl
  | cons t ts ih =>
      rw [List.flatMap_cons, List.foldr_append, ih, List.foldr_cons]
      cases t <;> rfl

theorem Renderer.shows_string {r : Renderer} {t : Token} (h : r.leaks t = false) :
    r.Shows (fun b => [.string (r.literal b)]) t := by
  rintro text b rfl
  have hclean : ∀ p ∈ r.rendered b, p.leaks = false := by simpa [Renderer.leaks] using h
  have hclosed := (passed_renderParts hclean).readString_tick []
  have hreads : Reads false .code (r.literal b ++ []) [.string (r.literal b)] .code :=
    .cons (.string (by decide) hclosed) (.nil .code)
  rwa [List.append_nil] at hreads

/-! ## The second scan -/

theorem Renderer.reads_close (r : Renderer) (b : Block) {rest : List Char} {us : List Token}
    {final : Mode} (h : Reads false .code rest us final) :
    Reads false .code ((r.close b).flatMap Token.text ++ rest) ((r.close b).foldr Token.push us)
      final := by
  unfold Renderer.close
  split
  · exact h
  · exact h.push_glue (List.cons_ne_nil _ _) (List.all_eq_true.1 (by decide))

section
variable {r : Renderer} (hr : r.helper = "renderComposcriptHTML".toList)
include hr

theorem Renderer.isGlue_lead (b : Block) : ∀ c ∈ r.lead b, isGlue c = true := by
  rw [← List.all_eq_true, Renderer.lead]
  split
  · decide
  · rw [hr]
    decide

theorem sameFront_tokens {mode final : Mode} {s : List Char} {ts : List Token}
    (h : Reads true mode s ts final) : SameFront s (r.tokens ts) := by
  induction h with
  | nil => exact .nil
  | @cons mode next final t rest ts head tail ih =>
      have htext : r.token t = t.text → SameFront (t.text ++ rest) (r.tokens (t :: ts)) := by
        intro ht
        rw [Renderer.tokens, List.flatMap_cons, ht]
        exact ih.append t.text
      cases head with
      | @markup tag content b on opening front block =>
          obtain ⟨c, lead, hlead⟩ := List.exists_cons_of_ne_nil (r.lead_ne_nil b.block)
          have hc : isGlue c = true :=
            r.isGlue_lead hr b.block c (hlead ▸ List.mem_cons_self)
          have hs : b.source ++ b.rest = tag.text ++ content := readBlock_source block
          simp only [Renderer.tokens, List.flatMap_cons, Renderer.token, Token.text,
            Renderer.block_eq, hlead, List.cons_append, hs, Tag.text]
          exact .block hc _ _
      | _ => exact htext rfl

/-- A token of the source is read again as its tokens of the script. -/
theorem reads_onto {inner : Block → List Token} {t : Token} {mode next final : Mode}
    {rest rest' : List Char} {us : List Token} (h : Stands true t next rest)
    (hshows : r.Shows inner t) (hfront : SameFront rest rest')
    (hrest : Reads false next rest' us final) :
    Reads false mode (r.token t ++ rest') (r.onto inner t us) final := by
  cases h with
  | @code text _ nonempty unmarked marked =>
      -- Two slashes that a colon hides would lengthen the run; they do so in both texts.
      have hslashes : colonAfter false text = true → ∀ u, rest' ≠ '/' :: '/' :: u := by
        intro hcolon
        rw [hcolon] at marked
        exact slashes_of_sameFront hfront marked
      exact hrest.push_code nonempty (unmarked_of_sameFront hfront unmarked) hslashes
  | lineComment oneLine stop =>
      rw [hfront.isEmpty_eq] at hrest
      exact .cons (.lineComment oneLine (hfront.lineEnd stop)) hrest
  | blockComment first => exact .cons (.blockComment first) hrest
  | openBlockComment open_ =>
      cases hfront
      exact .cons (.openBlockComment open_) hrest
  | string quote closed => exact .cons (.string quote closed) hrest
  | openString quote open_ =>
      cases hfront
      exact .cons (.openString quote open_) hrest
  | @markup tag content b on opening front block =>
      have hclose := r.reads_close b.block hrest
      have hliteral := (hshows _ _ rfl).append_of_tick (r.getLast?_literal b.block) hclose
      rw [Renderer.token, Renderer.block_eq, List.append_assoc, List.append_assoc]
      exact hliteral.push_glue (r.lead_ne_nil b.block) (r.isGlue_lead hr b.block)

/-- Over tokens whose literals are known, the second scan follows the first one. -/
theorem reads_rescan {inner : Block → List Token} {mode final : Mode} {s : List Char}
    {pre post : List Token} (h : Reads true mode s (pre ++ post) final)
    (hshows : ∀ t ∈ pre, r.Shows inner t) :
    ∃ mid, Reads true mid (post.flatMap Token.text) post final ∧
      ∀ us final', Reads false mid (r.tokens post) us final' →
        Reads false mode (r.tokens (pre ++ post)) (pre.foldr (r.onto inner) us) final' := by
  induction pre generalizing mode s with
  | nil =>
      have hs := h.flatMap_text
      rw [List.nil_append] at h hs
      exact ⟨mode, hs ▸ h, fun us final' h' => h'⟩
  | cons t pre ih =>
      cases h with
      | cons head tail =>
          obtain ⟨mid, hpost, hpre⟩ := ih tail fun u hu => hshows u (List.mem_cons_of_mem t hu)
          refine ⟨mid, hpost, fun us final' h' => ?_⟩
          exact reads_onto hr head (hshows t List.mem_cons_self) (sameFront_tokens hr tail)
            (hpre us final' h')

/-- The string that opens at a literal that leaks stops inside of it. -/
theorem reads_leak {text : List Char} {b : Block} (hleak : r.leaks (.markup text b) = true)
    (mode : Mode) (rest : List Char) :
    ∃ str us final,
      Reads false mode (r.block b ++ rest) (.code (r.lead b) :: .string str :: us) final ∧
      str <+: r.literal b ∧ str.length < (r.literal b).length := by
  have hmem : ∃ p ∈ r.rendered b, p.leaks = true := by simpa [Renderer.leaks] using hleak
  obtain ⟨a, e, hrender, ha⟩ := exists_of_mem_leaks hmem
  have hliteral : r.literal b = ('`' :: (a ++ ['`'])) ++ (e ++ ['`']) := by
    simp [Renderer.literal, hrender]
  obtain ⟨us, final, htail⟩ := exists_reads_plain .code
    (e ++ ['`'] ++ ((r.close b).flatMap Token.text ++ rest))
  have hstring : Reads false .code
      (('`' :: (a ++ ['`'])) ++ (e ++ ['`'] ++ ((r.close b).flatMap Token.text ++ rest)))
      (.string ('`' :: (a ++ ['`'])) :: us) final :=
    .cons (.string (by decide) (ha.readString_tick [])) htail
  have hspell : r.block b ++ rest = r.lead b ++
      (('`' :: (a ++ ['`'])) ++ (e ++ ['`'] ++ ((r.close b).flatMap Token.text ++ rest))) := by
    rw [Renderer.block_eq, hliteral]
    simp only [List.append_assoc]
  refine ⟨'`' :: (a ++ ['`']), us, final, ?_, ⟨e ++ ['`'], hliteral.symm⟩, ?_⟩
  · rw [hspell]
    exact hstring.push_glue (r.lead_ne_nil b) (r.isGlue_lead hr b)
  · rw [hliteral]
    simp

end

/-- Scanned again without markup, the rewritten script falls into the tokens of the source, with each
block as code, one string and code. If a block leaks, the string of the first such block stops inside
its literal. -/
theorem scan_rewritten {source : List Char} {scanned : Scan} (h : scan source = .ok scanned)
    (selfTag : Option (List Char)) :
    let r : Renderer := { selfTag }
    ((∀ t ∈ scanned.tokens, r.leaks t = false) →
      scan (r.tokens scanned.tokens) false =
        .ok ⟨joinCode (scanned.tokens.flatMap r.retoken), scanned.state⟩) ∧
    ∀ pre text b post, scanned.tokens = pre ++ .markup text b :: post →
      (∀ t ∈ pre, r.leaks t = false) → r.leaks (.markup text b) = true →
      ∃ before str after state,
        scan (r.tokens scanned.tokens) false = .ok ⟨before ++ .string str :: after, state⟩ ∧
        before = joinCode (pre.flatMap r.retoken ++ [.code (r.lead b)]) ∧
        before.flatMap Token.text = r.tokens pre ++ r.lead b ∧
        str <+: r.literal b ∧ str.length < (r.literal b).length := by
  intro r
  obtain ⟨final, hreads, hstate⟩ := scan_eq_ok_iff.1 h
  constructor
  · intro hclean
    rw [← List.append_nil scanned.tokens] at hreads
    obtain ⟨mid, hend, hrescan⟩ :=
      reads_rescan rfl hreads fun t ht => Renderer.shows_string (hclean t ht)
    obtain ⟨-, rfl⟩ := hend.of_nil rfl
    have hscript := hrescan [] final (.nil final)
    rw [List.append_nil, ← Renderer.foldr_retoken] at hscript
    exact scan_eq_ok_iff.2 ⟨final, hscript, hstate⟩
  · intro pre text b post hsplit hclean hleak
    rw [hsplit] at hreads
    obtain ⟨mid, -, hrescan⟩ :=
      reads_rescan rfl hreads fun t ht => Renderer.shows_string (hclean t ht)
    obtain ⟨str, us, final', hblock, hprefix, hlt⟩ := reads_leak rfl hleak mid (r.tokens post)
    have hscript := hrescan _ final' hblock
    have hjoin : (pre.flatMap r.retoken).foldr Token.push (.code (r.lead b) :: .string str :: us) =
        joinCode (pre.flatMap r.retoken ++ [.code (r.lead b)]) ++ .string str :: us := by
      rw [← foldr_push_string, List.foldr_append]
      rfl
    rw [← Renderer.foldr_retoken, hjoin] at hscript
    refine ⟨_, str, us, { mode := final' }, ?_, rfl, ?_, hprefix, hlt⟩
    · rw [hsplit]
      exact scan_eq_ok_iff.2 ⟨final', hscript, rfl⟩
    · rw [flatMap_text_joinCode, List.flatMap_append, r.flatMap_text_flatMap_retoken]
      simp [Token.text]

/-- A colon and a comment around a block that holds a backtick and whose expression ends with a
backslash, a block of the component itself and an open string; and a block with a template literal
inside. -/
theorem scan_rewritten_backslash :
    let block : Block := ⟨['p'], [.text "<p>".toList],
      [.text "`\\".toList, .expression "x\\".toList], [.text "</p>".toList]⟩
    let self : Block := ⟨"This".toList, [.text "<This>".toList], [.expression "'q'".toList],
      [.text "</This>".toList]⟩
    let leaking : Block := ⟨['p'], [.text "<p>".toList], [.expression "`x`".toList],
      [.text "</p>".toList]⟩
    let clean : List Token := [.code "a:".toList, .markup "<p>`\\\x7bx\\\x7d</p>".toList block,
      .lineComment "//c".toList, .code ['\n'], .markup "<This>\x7b'q'\x7d</This>".toList self,
      .string "'o".toList]
    let leaky : List Token := [.code ['b'], .markup "<p>\x7b`x`\x7d</p>".toList leaking,
      .code ['c']]
    let r : Renderer := {}
    (scan (clean.flatMap Token.text) = .ok ⟨clean, { mode := .string '\'' }⟩ ∧
      scan (r.tokens clean) false = .ok ⟨joinCode (clean.flatMap r.retoken),
        { mode := .string '\'' }⟩) ∧
    scan (leaky.flatMap Token.text) = .ok ⟨leaky, {}⟩ ∧
      ∃ before str after state,
        scan (r.tokens leaky) false = .ok ⟨before ++ .string str :: after, state⟩ ∧
        before.flatMap Token.text = "brenderComposcriptHTML(".toList ∧
        str <+: r.literal leaking ∧ str.length < (r.literal leaking).length := by
  intro block self leaking clean leaky r
  have hclean : scan (clean.flatMap Token.text) = .ok ⟨clean, { mode := .string '\'' }⟩ := by
    decide +kernel
  have hleaky : scan (leaky.flatMap Token.text) = .ok ⟨leaky, {}⟩ := by decide +kernel
  have hrescan := (scan_rewritten hclean (some "This".toList)).1 (by decide)
  obtain ⟨before, str, after, state, hscan, -, htext, hprefix, hlt⟩ :=
    (scan_rewritten hleaky (some "This".toList)).2 [.code ['b']] _ leaking [.code ['c']] rfl
      (by decide) (by decide)
  exact ⟨⟨hclean, hrescan⟩, hleaky, before, str, after, state, hscan, htext.trans (by decide),
    hprefix, hlt⟩

end ElementBundle.Markup
