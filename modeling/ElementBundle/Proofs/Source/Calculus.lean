import ElementBundle.Proofs.Text.Search
import ElementBundle.Source.Scan

/-! # Calculus of successful scans

`Stands` says what one token is, in terms of its text and of the text after it;
`readToken_eq_ok_iff` proves that it is exactly what the reader of tokens
returns. `Reads` chains tokens to a whole scan, so that a proof about scans is
an induction on the tokens and never opens a reader. Lines play no part in it:
they only place a failure.
-/

namespace ElementBundle.Source

open ElementBundle.Text ElementBundle.Markup

/-! ## Marks -/

@[simp] theorem opener?_slashes (markup : Bool) (s : List Char) :
    opener? markup false '/' ('/' :: s) = some .lineComment := by
  simp [opener?]

@[simp] theorem opener?_slash_star (markup afterColon : Bool) (s : List Char) :
    opener? markup afterColon '/' ('*' :: s) = some .blockComment := by
  simp [opener?]

theorem ne_backslash_of_isQuote {q : Char} (hq : isQuote q = true) : q ≠ '\\' := by
  rintro rfl
  exact absurd hq (by decide)

theorem opener?_quote {q : Char} (hq : isQuote q = true) (markup afterColon : Bool)
    (s : List Char) : opener? markup afterColon q s = some .string := by
  have hne : q ≠ '/' := by
    rintro rfl
    simp [isQuote] at hq
  simp [opener?, hne, hq]

theorem opener?_tag {tag : Tag} {c : Char} {s rest : List Char}
    (ht : Tag.read? (c :: s) = some (tag, rest)) (hopen : tag.closing = false)
    (afterColon : Bool) : opener? true afterColon c s = some (.markup tag rest) := by
  have hc : c = '<' := by
    have htext := Tag.read?_eq_some ht
    simp only [Tag.text, List.cons_append, List.cons.injEq] at htext
    exact htext.1
  subst hc
  simp [opener?, isQuote, ht, hopen]

theorem opener?_cases {markup afterColon : Bool} {c : Char} {s : List Char} {o : Opener}
    (h : opener? markup afterColon c s = some o) :
    (o = .lineComment ∧ afterColon = false ∧ c = '/' ∧ ∃ u, s = '/' :: u) ∨
      (o = .blockComment ∧ c = '/' ∧ ∃ u, s = '*' :: u) ∨
      (o = .string ∧ isQuote c = true) ∨
      ∃ tag rest, o = .markup tag rest ∧ markup = true ∧ tag.closing = false ∧
        Tag.read? (c :: s) = some (tag, rest) := by
  unfold opener? at h
  split at h
  · rename_i hc
    split at h
    · split at h
      · cases h
      · cases h
        exact .inl ⟨rfl, by simp_all, hc, _, rfl⟩
    · cases h
      exact .inr (.inl ⟨rfl, hc, _, rfl⟩)
    · cases h
  · split at h
    · rename_i hq
      cases h
      exact .inr (.inr (.inl ⟨rfl, hq⟩))
    · split at h
      · rename_i hm
        split at h
        · rename_i tag rest ht
          split at h
          · cases h
          · rename_i hopen
            cases h
            simp only [Bool.and_eq_true] at hm
            exact .inr (.inr (.inr ⟨tag, rest, rfl, hm.1, by simpa using hopen, ht⟩))
        · cases h
      · cases h


/-! ## Runs of code -/

/-- Whether the character before a text is a colon, once `code` is read. -/
def colonAfter (afterColon : Bool) : List Char → Bool
  | [] => afterColon
  | c :: s => colonAfter (c == ':') s

/-- No mark starts inside `code` when `rest` follows it. -/
def Unmarked (markup : Bool) : Bool → List Char → List Char → Prop
  | _, [], _ => True
  | afterColon, c :: s, rest =>
      opener? markup afterColon c (s ++ rest) = none ∧ Unmarked markup (c == ':') s rest

def Marked (markup afterColon : Bool) : List Char → Prop
  | [] => True
  | c :: s => (opener? markup afterColon c s).isSome

theorem colonAfter_append (afterColon : Bool) (a b : List Char) :
    colonAfter afterColon (a ++ b) = colonAfter (colonAfter afterColon a) b := by
  induction a generalizing afterColon with
  | nil => rfl
  | cons c a ih => exact ih (c == ':')

theorem unmarked_append {markup afterColon : Bool} {a b rest : List Char} :
    Unmarked markup afterColon (a ++ b) rest ↔
      Unmarked markup afterColon a (b ++ rest) ∧
        Unmarked markup (colonAfter afterColon a) b rest := by
  induction a generalizing afterColon with
  | nil => simp [Unmarked, colonAfter]
  | cons c a ih => simp [Unmarked, colonAfter, ih, and_assoc]

theorem opener?_eq_none_of_not_afterColon {markup : Bool} {c : Char} {s : List Char}
    (h : opener? markup false c s = none) (afterColon : Bool) :
    opener? markup afterColon c s = none := by
  cases afterColon with
  | false => exact h
  | true =>
      unfold opener? at h ⊢
      split
      · rename_i hc
        rw [if_pos hc] at h
        split at h <;> simp_all
      · rename_i hc
        rwa [if_neg hc] at h

theorem readCode_unmarked (markup afterColon : Bool) (s : List Char) :
    Unmarked markup afterColon (readCode markup afterColon s).1
      (readCode markup afterColon s).2 := by
  induction s generalizing afterColon with
  | nil => trivial
  | cons c s ih =>
      rw [readCode]
      split
      · trivial
      · rename_i h
        refine ⟨?_, ih (c == ':')⟩
        rw [readCode_append]
        simpa using h

theorem readCode_marked (markup afterColon : Bool) (s : List Char) :
    Marked markup (colonAfter afterColon (readCode markup afterColon s).1)
      (readCode markup afterColon s).2 := by
  induction s generalizing afterColon with
  | nil => trivial
  | cons c s ih =>
      rw [readCode]
      split
      · rename_i h
        exact h
      · exact ih (c == ':')

/-- A run of code is read in full, and reading goes on behind it. -/
theorem readCode_of_unmarked {markup afterColon : Bool} {code rest : List Char}
    (h : Unmarked markup afterColon code rest) :
    readCode markup afterColon (code ++ rest) =
      (code ++ (readCode markup (colonAfter afterColon code) rest).1,
        (readCode markup (colonAfter afterColon code) rest).2) := by
  induction code generalizing afterColon with
  | nil => rfl
  | cons c code ih =>
      have hc : (opener? markup afterColon c (code ++ rest)).isSome = false := by
        rw [h.1]
        rfl
      rw [List.cons_append, readCode, if_neg (by simp [hc]), ih h.2]
      rfl

theorem readCode_of_marked {markup afterColon : Bool} {rest : List Char}
    (h : Marked markup afterColon rest) : readCode markup afterColon rest = ([], rest) := by
  cases rest with
  | nil => rfl
  | cons c s =>
      have hc : (opener? markup afterColon c s).isSome = true := h
      rw [readCode, if_pos hc]

/-! ## Strings -/

/-- Texts are built from plain characters and pairs that start with a backslash;
a backslash may be left over at the end. -/
@[elab_as_elim]
theorem escapedInduction {motive : List Char → Prop} (nil : motive [])
    (backslash : motive ['\\'])
    (escape : ∀ c s, motive s → motive ('\\' :: c :: s))
    (plain : ∀ c s, c ≠ '\\' → motive s → motive (c :: s)) : ∀ s, motive s
  | [] => nil
  | [c] =>
      if hc : c = '\\' then hc ▸ backslash else plain c [] hc nil
  | c :: d :: s =>
      if hc : c = '\\' then hc ▸ escape d s (escapedInduction nil backslash escape plain s)
      else plain c (d :: s) hc (escapedInduction nil backslash escape plain (d :: s))

theorem readString_escape (q c : Char) (s : List Char) :
    readString q ('\\' :: c :: s) =
      ('\\' :: c :: (readString q s).1, (readString q s).2) := by
  rw [readString]

theorem readString_plain {q c : Char} (hc : c ≠ '\\') (s : List Char) :
    readString q (c :: s) =
      if c = q then ([c], true, s) else (c :: (readString q s).1, (readString q s).2) := by
  rw [readString]
  · exact fun h => absurd h hc
  · exact fun _ _ h => absurd h hc

theorem readString_append_of_closed {q : Char} {s text rest : List Char}
    (h : readString q s = (text, true, rest)) (more : List Char) :
    readString q (s ++ more) = (text, true, rest ++ more) := by
  induction s using escapedInduction generalizing text with
  | nil => simp [readString] at h
  | backslash => simp [readString] at h
  | escape c s ih =>
      rw [readString_escape, Prod.mk.injEq] at h
      rw [List.cons_append, List.cons_append, readString_escape, ih (Prod.ext rfl h.2), ← h.1]
  | plain c s hc ih =>
      rw [readString_plain hc] at h
      rw [List.cons_append, readString_plain hc]
      split
      · simp_all
      · rename_i hq
        rw [if_neg hq, Prod.mk.injEq] at h
        rw [ih (Prod.ext rfl h.2), ← h.1]

theorem readString_rest_of_open {q : Char} {s : List Char} (h : (readString q s).2.1 = false) :
    (readString q s).1 = s ∧ (readString q s).2.2 = [] := by
  have hrest : (readString q s).2.2 = [] := by
    induction s using escapedInduction with
    | nil => rfl
    | backslash => rfl
    | escape c s ih =>
        rw [readString_escape] at h ⊢
        exact ih h
    | plain c s hc ih =>
        rw [readString_plain hc] at h ⊢
        split
        · simp_all
        · rename_i hq
          rw [if_neg hq] at h
          exact ih h
  have happend := readString_append q s
  rw [hrest, List.append_nil] at happend
  exact ⟨happend, hrest⟩

theorem readString_text_of_closed {q : Char} {s text rest : List Char}
    (h : readString q s = (text, true, rest)) : readString q text = (text, true, []) := by
  induction s using escapedInduction generalizing text with
  | nil => simp [readString] at h
  | backslash => simp [readString] at h
  | escape c s ih =>
      rw [readString_escape, Prod.mk.injEq] at h
      rw [← h.1, readString_escape, ih (Prod.ext rfl h.2)]
  | plain c s hc ih =>
      rw [readString_plain hc] at h
      split at h
      · rename_i hq
        obtain ⟨rfl, -⟩ := Prod.mk.inj h
        rw [readString_plain hc, if_pos hq]
      · rename_i hq
        rw [Prod.mk.injEq] at h
        rw [← h.1, readString_plain hc, if_neg hq, ih (Prod.ext rfl h.2)]

/-! ## Tokens -/

/-- A token stands in front of `rest` and leaves the scanner in a mode. -/
inductive Stands (markup : Bool) : Token → Mode → List Char → Prop
  | code {text rest : List Char} (nonempty : text ≠ [])
      (unmarked : Unmarked markup false text rest)
      (marked : Marked markup (colonAfter false text) rest) :
      Stands markup (.code text) .code rest
  | lineComment {body rest : List Char} (oneLine : '\n' ∉ body)
      (stop : rest = [] ∨ rest.head? = some '\n') :
      Stands markup (.lineComment ('/' :: '/' :: body))
        (if rest.isEmpty then .lineComment else .code) rest
  | blockComment {body rest : List Char}
      (first : findFirst? ['*', '/'] (body ++ ['*', '/']) = some (body, [])) :
      Stands markup (.blockComment ('/' :: '*' :: body ++ ['*', '/'])) .code rest
  | openBlockComment {body : List Char} (open_ : findFirst? ['*', '/'] body = none) :
      Stands markup (.blockComment ('/' :: '*' :: body)) .blockComment []
  | string {q : Char} {body rest : List Char} (quote : isQuote q = true)
      (closed : readString q body = (body, true, [])) :
      Stands markup (.string (q :: body)) .code rest
  | openString {q : Char} {body : List Char} (quote : isQuote q = true)
      (open_ : readString q body = (body, false, [])) :
      Stands markup (.string (q :: body)) (.string q) []
  | markup {tag : Tag} {content : List Char} {r : BlockRead} (on : markup = true)
      (opening : tag.closing = false)
      (front : Tag.read? (tag.text ++ content) = some (tag, content))
      (block : readBlock tag content = .ok r) :
      Stands markup (.markup r.source r.block) .code r.rest

theorem lineEnd_iff {rest : List Char} :
    rest.head?.any (fun c => decide (c ≠ '\n')) = false ↔ rest = [] ∨ rest.head? = some '\n' := by
  cases rest <;> simp

theorem stands_of_readToken {markup : Bool} {c : Char} {s : List Char} {t : TokenRead}
    (h : readToken markup c s = .ok t) : Stands markup t.token t.mode t.rest := by
  unfold readToken at h
  split at h
  · rename_i ho
    obtain ⟨-, -, rfl, u, rfl⟩ | ⟨h', -⟩ | ⟨h', -⟩ | ⟨tag, rest, h', -⟩ := opener?_cases ho
    · cases h
      have hmem : '\n' ∉ u.takeWhile (· ≠ '\n') := by
        intro hm
        simpa using List.mem_takeWhile_imp hm
      exact Stands.lineComment hmem (lineEnd_iff.1 (head?_dropWhile_any _ u))
    all_goals cases h'
  · rename_i ho
    obtain ⟨h', -⟩ | ⟨-, rfl, u, rfl⟩ | ⟨h', -⟩ | ⟨tag, rest, h', -⟩ := opener?_cases ho
    · cases h'
    · split at h
      · rename_i body rest hb
        cases h
        exact .blockComment (findFirst?_drop_rest hb)
      · rename_i hb
        cases h
        exact .openBlockComment hb
    all_goals cases h'
  · rename_i ho
    obtain ⟨h', -⟩ | ⟨h', -⟩ | ⟨-, hq⟩ | ⟨tag, rest, h', -⟩ := opener?_cases ho
    · cases h'
    · cases h'
    · cases h
      cases hclosed : (readString c s).2.1 with
      | true =>
          rw [if_pos rfl]
          exact .string hq (readString_text_of_closed (Prod.ext rfl (Prod.ext hclosed rfl)))
      | false =>
          obtain ⟨htext, hrest⟩ := readString_rest_of_open hclosed
          rw [if_neg Bool.false_ne_true, hrest]
          refine .openString hq ?_
          rw [htext]
          exact Prod.ext htext (Prod.ext hclosed hrest)
    · cases h'
  · rename_i tag rest ho
    obtain ⟨h', -⟩ | ⟨h', -⟩ | ⟨h', -⟩ | ⟨tag', rest', h', hm, hopen, ht⟩ := opener?_cases ho
    · cases h'
    · cases h'
    · cases h'
    · cases h'
      obtain ⟨r, hr, rfl⟩ := map_eq_ok h
      rw [Tag.read?_eq_some ht] at ht
      exact .markup hm hopen ht hr
  · rename_i ho
    cases h
    have hs := readCode_append markup (c == ':') s
    refine .code (List.cons_ne_nil _ _) ⟨?_, readCode_unmarked markup (c == ':') s⟩
      (readCode_marked markup (c == ':') s)
    rw [hs, ho]

theorem readToken_of_stands {markup : Bool} {t : Token} {mode : Mode} {c : Char}
    {s rest : List Char} (h : Stands markup t mode rest) (hs : t.text ++ rest = c :: s) :
    readToken markup c s = .ok ⟨t, mode, rest⟩ := by
  cases h with
  | @code text _ nonempty unmarked marked =>
      cases text with
      | nil => exact absurd rfl nonempty
      | cons d text =>
          obtain ⟨rfl, rfl⟩ := List.cons.inj hs
          have hread := readCode_of_unmarked unmarked.2
          have hstop : readCode markup (colonAfter (d == ':') text) rest = ([], rest) :=
            readCode_of_marked marked
          rw [hstop, List.append_nil] at hread
          simp [readToken, unmarked.1, hread]
  | @lineComment body _ oneLine stop =>
      simp only [Token.text, List.cons_append] at hs
      obtain ⟨rfl, rfl⟩ := List.cons.inj hs
      have hline : ∀ c ∈ '/' :: '/' :: body, decide (c ≠ '\n') = true := by
        intro c hc
        have hne : c ≠ '\n' := by
          rintro rfl
          simp [oneLine] at hc
        simpa using hne
      have htake := takeWhile_append_stop hline (lineEnd_iff.2 stop)
      have hdrop := dropWhile_append_stop hline (lineEnd_iff.2 stop)
      simp only [List.cons_append] at htake hdrop
      simp only [readToken, opener?_slashes, htake, hdrop]
  | @blockComment body _ first =>
      obtain ⟨rfl, rfl⟩ := List.cons.inj hs
      have hfind := findFirst?_append_right first rest
      simp only [List.append_assoc, List.cons_append, List.nil_append] at hfind
      simp [readToken, hfind]
  | @openBlockComment body open_ =>
      obtain ⟨rfl, rfl⟩ := List.cons.inj hs
      simp [readToken, open_]
  | @string q body _ quote closed =>
      obtain ⟨rfl, rfl⟩ := List.cons.inj hs
      have hread := readString_append_of_closed closed rest
      simp [readToken, opener?_quote quote, hread]
  | @openString q body quote open_ =>
      obtain ⟨rfl, rfl⟩ := List.cons.inj hs
      simp [readToken, opener?_quote quote, open_]
  | @markup tag content r on opening front block =>
      subst on
      have hfront : c :: s = tag.text ++ content := hs.symm.trans (readBlock_source block)
      rw [← hfront] at front
      simp [readToken, opener?_tag front opening, block, Except.map]

/-- The reader of tokens returns exactly the token that stands in front. -/
theorem readToken_eq_ok_iff {markup : Bool} {c : Char} {s : List Char} {t : TokenRead} :
    readToken markup c s = .ok t ↔
      t.token.text ++ t.rest = c :: s ∧ Stands markup t.token t.mode t.rest := by
  constructor
  · intro h
    exact ⟨readToken_source h, stands_of_readToken h⟩
  · rintro ⟨hs, h⟩
    exact readToken_of_stands h hs

theorem Stands.text_ne_nil {markup : Bool} {t : Token} {mode : Mode} {rest : List Char}
    (h : Stands markup t mode rest) : t.text ≠ [] := by
  cases h with
  | code nonempty _ _ => exact nonempty
  | markup on opening front block => exact readBlock_source_ne_nil block
  | _ => simp [Token.text]

theorem Stands.exists_readBlock {markup : Bool} {text : List Char} {block : Block} {mode : Mode}
    {rest : List Char} (h : Stands markup (.markup text block) mode rest) :
    ∃ tag content, tag.closing = false ∧
      Tag.read? (tag.text ++ content) = some (tag, content) ∧
      readBlock tag content = .ok ⟨block, text, rest⟩ := by
  generalize ht : Token.markup text block = t at h
  cases h with
  | markup on opening front hblock =>
      cases ht
      exact ⟨_, _, opening, front, hblock⟩
  | _ => cases ht

/-! ## Chains of tokens -/

/-- Tokens that spell a text, each standing in front of the next ones. -/
inductive Reads (markup : Bool) : Mode → List Char → List Token → Mode → Prop
  | nil (mode : Mode) : Reads markup mode [] [] mode
  | cons {mode next final : Mode} {t : Token} {rest : List Char} {ts : List Token}
      (head : Stands markup t next rest) (tail : Reads markup next rest ts final) :
      Reads markup mode (t.text ++ rest) (t :: ts) final

theorem Reads.flatMap_text {markup : Bool} {mode final : Mode} {s : List Char} {ts : List Token}
    (h : Reads markup mode s ts final) : ts.flatMap Token.text = s := by
  induction h with
  | nil mode => rfl
  | cons head tail ih => rw [List.flatMap_cons, ih]

theorem Reads.text_ne_nil {markup : Bool} {mode final : Mode} {s : List Char} {ts : List Token}
    (h : Reads markup mode s ts final) : ∀ t ∈ ts, t.text ≠ [] := by
  induction h with
  | nil mode => simp
  | cons head tail ih =>
      intro u hu
      rcases List.mem_cons.1 hu with rfl | hu
      · exact head.text_ne_nil
      · exact ih u hu

theorem Reads.of_nil {markup : Bool} {mode final : Mode} {s : List Char} {ts : List Token}
    (h : Reads markup mode s ts final) (hs : s = []) : ts = [] ∧ final = mode := by
  cases h with
  | nil => exact ⟨rfl, rfl⟩
  | cons head tail => exact absurd (List.append_eq_nil_iff.1 hs).1 head.text_ne_nil

theorem Reads.drop {markup : Bool} {mode final : Mode} {s : List Char} {pre post : List Token}
    (h : Reads markup mode s (pre ++ post) final) :
    ∃ mid, Reads markup mid (post.flatMap Token.text) post final := by
  induction pre generalizing mode s with
  | nil =>
      have hs := h.flatMap_text
      rw [List.nil_append] at h hs
      exact ⟨mode, hs ▸ h⟩
  | cons t pre ih =>
      cases h with
      | cons head tail => exact ih tail

theorem Reads.uncons {markup : Bool} {mode final : Mode} {s : List Char} {t : Token}
    {ts : List Token} (h : Reads markup mode s (t :: ts) final) :
    ∃ next, Stands markup t next (ts.flatMap Token.text) ∧
      Reads markup next (ts.flatMap Token.text) ts final := by
  cases h with
  | cons head tail =>
      rw [tail.flatMap_text]
      exact ⟨_, head, tail⟩

/-- A chain can be cut inside a run of code, unless a colon hides a mark there. -/
theorem Reads.drop_code {markup : Bool} {mode final : Mode} {s u v : List Char}
    {pre post : List Token} (h : Reads markup mode s (pre ++ .code (u ++ v) :: post) final)
    (hv : v ≠ [])
    (hcolon : ∀ rest, Unmarked markup (colonAfter false u) v rest → Unmarked markup false v rest) :
    Reads markup .code (v ++ post.flatMap Token.text) (.code v :: post) final := by
  obtain ⟨mid, hmid⟩ := h.drop
  obtain ⟨next, head, tail⟩ := hmid.uncons
  cases head with
  | code nonempty unmarked marked =>
      obtain ⟨c, v, rfl⟩ := List.exists_cons_of_ne_nil hv
      rw [colonAfter_append] at marked
      have hstands : Stands markup (.code (c :: v)) .code (post.flatMap Token.text) :=
        .code hv (hcolon _ (unmarked_append.1 unmarked).2) marked
      exact .cons hstands tail

/-- A scan succeeds exactly with the chain of tokens of its text. -/
theorem scanFrom_eq_ok_iff {markup : Bool} {line : Nat} {mode : Mode} {s : List Char} {r : Scan} :
    scanFrom markup line mode s = .ok r ↔
      ∃ final, Reads markup mode s r.tokens final ∧ r.state = { mode := final } := by
  constructor
  · intro h
    fun_induction scanFrom markup line mode s generalizing r with
    | case1 line mode =>
        cases h
        exact ⟨mode, .nil mode, rfl⟩
    | case2 => cases h
    | case3 line mode c s t ht ih =>
        obtain ⟨r', hr, rfl⟩ := map_eq_ok h
        obtain ⟨final, htail, hstate⟩ := ih hr
        obtain ⟨hs, hstands⟩ := readToken_eq_ok_iff.1 ht
        exact ⟨final, hs ▸ .cons hstands htail, hstate⟩
  · rintro ⟨final, h, hstate⟩
    obtain ⟨tokens, state⟩ := r
    dsimp only at h hstate
    subst hstate
    induction h generalizing line with
    | nil mode => rw [scanFrom]
    | @cons mode next final t rest ts head tail ih =>
        obtain ⟨c, s, hs⟩ := List.exists_cons_of_ne_nil
          (List.append_ne_nil_of_left_ne_nil head.text_ne_nil rest)
        have hread := readToken_of_stands head hs
        rw [hs, scanFrom]
        split
        · rename_i fault hfault
          rw [hread] at hfault
          cases hfault
        · rename_i t' ht'
          rw [hread] at ht'
          cases ht'
          rw [ih]
          rfl

theorem scan_eq_ok_iff {markup : Bool} {source : List Char} {r : Scan} :
    scan source markup = .ok r ↔
      ∃ final, Reads markup .code source r.tokens final ∧ r.state = { mode := final } :=
  scanFrom_eq_ok_iff

theorem Reads.unique {markup : Bool} {mode final final' : Mode} {s : List Char}
    {ts ts' : List Token} (h : Reads markup mode s ts final)
    (h' : Reads markup mode s ts' final') : ts = ts' := by
  have hscan : scanFrom markup 1 mode s = .ok ⟨ts, { mode := final }⟩ :=
    scanFrom_eq_ok_iff.2 ⟨final, h, rfl⟩
  have hscan' : scanFrom markup 1 mode s = .ok ⟨ts', { mode := final' }⟩ :=
    scanFrom_eq_ok_iff.2 ⟨final', h', rfl⟩
  exact congrArg Scan.tokens (Except.ok.inj (hscan.symm.trans hscan'))

theorem exists_readToken_plain (c : Char) (s : List Char) : ∃ t, readToken false c s = .ok t := by
  unfold readToken
  split
  · exact ⟨_, rfl⟩
  · split <;> exact ⟨_, rfl⟩
  · exact ⟨_, rfl⟩
  · rename_i tag rest ho
    obtain ⟨h', -⟩ | ⟨h', -⟩ | ⟨h', -⟩ | ⟨_, _, -, hm, -⟩ := opener?_cases ho
    all_goals contradiction
  · exact ⟨_, rfl⟩

theorem exists_reads_plain (mode : Mode) (s : List Char) : ∃ ts final, Reads false mode s ts final := by
  cases s with
  | nil => exact ⟨[], mode, .nil mode⟩
  | cons c s =>
      obtain ⟨t, ht⟩ := exists_readToken_plain c s
      obtain ⟨hs, hstands⟩ := readToken_eq_ok_iff.1 ht
      have hlt := readToken_rest_lt ht
      obtain ⟨ts, final, htail⟩ := exists_reads_plain t.mode t.rest
      exact ⟨t.token :: ts, final, hs ▸ .cons hstands htail⟩
termination_by s.length
decreasing_by exact hlt

end ElementBundle.Source
