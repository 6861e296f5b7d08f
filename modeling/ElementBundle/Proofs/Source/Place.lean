import ElementBundle.Proofs.Source.Splice

/-! # Places in a chain of tokens

Every place in front of a character lies inside of one token, and what is found
there may run on into the next ones. It does not where the next token starts
with a character that is no part of it. No two neighbours of a chain meet in
word characters, so a word stands in one token.
-/

namespace ElementBundle.Source

open ElementBundle.Text ElementBundle.Markup

/-! ## Cuts -/

/-- A text that tokens spell is cut inside of one of them: `u` stands in front of the cut and `v`
behind it. -/
structure Inside (ts : List Token) (a b : List Char) (t : Token) (u v : List Char) : Prop where
  text : t.text = u ++ v
  nonempty : v ≠ []
  split : ∃ front back, ts = front ++ t :: back ∧ a = front.flatMap Token.text ++ u ∧
    b = v ++ back.flatMap Token.text

theorem Inside.cons {ts : List Token} {a b u v : List Char} {t : Token}
    (h : Inside ts a b t u v) (t' : Token) : Inside (t' :: ts) (t'.text ++ a) b t u v := by
  obtain ⟨front, back, rfl, rfl, rfl⟩ := h.split
  exact ⟨h.text, h.nonempty, t' :: front, back, rfl, by simp, rfl⟩

theorem exists_inside {ts : List Token} {a b : List Char} (h : ts.flatMap Token.text = a ++ b)
    (hb : b ≠ []) : ∃ t u v, Inside ts a b t u v := by
  induction ts generalizing a with
  | nil => exact absurd (List.append_eq_nil_iff.1 h.symm).2 hb
  | cons t ts ih =>
      rw [List.flatMap_cons] at h
      rcases List.append_eq_append_iff.1 h with ⟨a', rfl, hrest⟩ | ⟨v, htext, rfl⟩
      · obtain ⟨t', u, v, hinside⟩ := ih hrest
        exact ⟨t', u, v, hinside.cons t⟩
      · by_cases hv : v = []
        · subst hv
          rw [List.append_nil] at htext
          obtain ⟨t', u, v, hinside⟩ := ih (a := []) rfl
          have hcons := hinside.cons t
          rw [List.append_nil, htext] at hcons
          exact ⟨t', u, v, hcons⟩
        · exact ⟨t, a, v, htext, hv, [], ts, rfl, rfl, rfl⟩

theorem Inside.stands {mode final : Mode} {s a b u v : List Char} {ts : List Token} {t : Token}
    (h : Inside ts a b t u v) (hreads : Reads false mode s ts final) :
    ∃ next rest, Stands false t next rest ∧ b = v ++ rest := by
  obtain ⟨front, back, rfl, -, hb⟩ := h.split
  obtain ⟨mid, hmid⟩ := hreads.drop
  obtain ⟨next, hstands, -⟩ := hmid.uncons
  exact ⟨next, _, hstands, hb⟩

theorem Inside.flatMap_text {ts : List Token} {a b u v : List Char} {t : Token}
    (h : Inside ts a b t u v) : ts.flatMap Token.text = a ++ b := by
  obtain ⟨front, back, rfl, rfl, rfl⟩ := h.split
  simp [h.text]

theorem Inside.mem {ts : List Token} {a b u v : List Char} {t : Token}
    (h : Inside ts a b t u v) : t ∈ ts := by
  obtain ⟨front, back, rfl, -⟩ := h.split
  exact List.mem_append_right front List.mem_cons_self

/-- A text that goes no further than the first character of the rest stands in front of it. -/
theorem prefix_of_prefix_append {w v rest : List Char} (h : w <+: v ++ rest)
    (hstop : ∀ c, rest.head? = some c → c ∉ w) : w <+: v := by
  rcases List.prefix_or_prefix_of_prefix h (List.prefix_append v rest) with hw | ⟨x, rfl⟩
  · exact hw
  · cases x with
    | nil => simp
    | cons c x =>
        obtain ⟨y, hy⟩ := (List.prefix_append_right_inj v).1 h
        have hc : rest.head? = some c := by
          rw [← hy]
          rfl
        exact absurd (List.mem_append_right v List.mem_cons_self) (hstop c hc)

/-- What starts in a line comment and holds no line feed ends in it. -/
theorem Stands.prefix_of_lineComment {text w u v rest : List Char} {mode : Mode}
    (h : Stands false (.lineComment text) mode rest) (htext : text = u ++ v)
    (hw : w <+: v ++ rest) : w <+: v ↔ '\n' ∉ w := by
  cases h with
  | @lineComment body _ oneLine stop =>
      constructor
      · rintro ⟨x, rfl⟩ hfeed
        have hmem : '\n' ∈ '/' :: '/' :: body := by
          rw [htext]
          exact List.mem_append_right u (List.mem_append_left x hfeed)
        simp [oneLine] at hmem
      · intro hfeed
        refine prefix_of_prefix_append hw ?_
        intro c hc
        rcases stop with hnil | hhead
        · rw [hnil] at hc
          cases hc
        · rw [hhead] at hc
          obtain rfl := Option.some.inj hc
          exact hfeed

/-- What starts in code and holds neither a slash nor a quote ends in it. -/
theorem Stands.prefix_of_code {text w v rest : List Char} {mode : Mode}
    (h : Stands false (.code text) mode rest) (hw : w <+: v ++ rest)
    (hplain : ∀ c ∈ w, c ≠ '/' ∧ isQuote c = false) : w <+: v := by
  cases h with
  | code nonempty unmarked marked =>
      refine prefix_of_prefix_append hw ?_
      intro c hc hmem
      obtain ⟨s, rfl⟩ := List.head?_eq_some_iff.1 hc
      obtain ⟨hslash, hquote⟩ := hplain c hmem
      obtain ⟨o, ho⟩ := Option.isSome_iff_exists.1 marked
      obtain ⟨-, -, rfl, -⟩ | ⟨-, rfl, -⟩ | ⟨-, hq⟩ | ⟨_, _, -, hm, -⟩ := opener?_cases ho
      · exact hslash rfl
      · exact hslash rfl
      · rw [hquote] at hq
        cases hq
      · cases hm

theorem Stands.colon_of_slashes {u v rest : List Char} {mode : Mode}
    (h : Stands false (.code (u ++ v)) mode rest) (hv : ∃ x, v ++ rest = '/' :: '/' :: x)
    (hne : v ≠ []) : u.getLast? = some ':' := by
  cases h with
  | code nonempty unmarked marked =>
      obtain ⟨c, v, rfl⟩ := List.exists_cons_of_ne_nil hne
      obtain ⟨x, hx⟩ := hv
      obtain ⟨rfl, htail⟩ := List.cons.inj hx
      have hnone := (unmarked_append.1 unmarked).2.1
      rw [List.append_eq] at htail
      rw [htail] at hnone
      cases hcolon : colonAfter false u with
      | false =>
          rw [hcolon, opener?_slashes] at hnone
          cases hnone
      | true =>
          rcases List.eq_nil_or_concat u with rfl | ⟨u, d, rfl⟩
          · cases hcolon
          · rw [List.concat_eq_append, colonAfter_append] at hcolon
            have hd : (d == ':') = true := hcolon
            rw [eq_of_beq hd, List.concat_eq_append, List.getLast?_concat]

/-! ## Neighbours -/

def Apart (s s' : List Char) : Prop :=
  ∀ c d, s.getLast? = some c → s'.head? = some d → isWord c = false ∨ isWord d = false

def Separated : List Token → Prop
  | [] => True
  | t :: ts => Apart t.text (ts.flatMap Token.text) ∧ Separated ts

theorem getLast?_of_readString {q : Char} {s text rest : List Char}
    (h : readString q s = (text, true, rest)) : text.getLast? = some q := by
  induction s using escapedInduction generalizing text with
  | nil => simp [readString] at h
  | backslash => simp [readString] at h
  | escape c s ih =>
      rw [readString_escape, Prod.mk.injEq] at h
      have hlast := ih (Prod.ext rfl h.2)
      rw [← h.1, List.getLast?_cons_cons, List.getLast?_cons, hlast]
      rfl
  | plain c s hc ih =>
      rw [readString_plain hc] at h
      split at h
      · rename_i hq
        obtain ⟨rfl, -⟩ := Prod.mk.inj h
        rw [hq]
        rfl
      · rw [Prod.mk.injEq] at h
        have hlast := ih (Prod.ext rfl h.2)
        rw [← h.1, List.getLast?_cons, hlast]
        rfl

theorem isWord_eq_false_of_isQuote {q : Char} (hq : isQuote q = true) : isWord q = false := by
  simp only [isQuote, Bool.or_eq_true, beq_iff_eq] at hq
  rcases hq with (rfl | rfl) | rfl <;> decide

theorem Stands.apart {t : Token} {mode : Mode} {rest : List Char} (h : Stands false t mode rest) :
    Apart t.text rest := by
  intro c d hc hd
  cases h with
  | code nonempty unmarked marked =>
      right
      obtain ⟨s, rfl⟩ := List.head?_eq_some_iff.1 hd
      obtain ⟨o, ho⟩ := Option.isSome_iff_exists.1 marked
      obtain ⟨-, -, rfl, -⟩ | ⟨-, rfl, -⟩ | ⟨-, hq⟩ | ⟨_, _, -, hm, -⟩ := opener?_cases ho
      · decide
      · decide
      · exact isWord_eq_false_of_isQuote hq
      · cases hm
  | lineComment oneLine stop =>
      right
      rcases stop with hnil | hhead
      · rw [hnil] at hd
        cases hd
      · rw [hhead] at hd
        obtain rfl := Option.some.inj hd
        decide
  | @blockComment body _ first =>
      left
      have hlast : ('/' :: '*' :: body ++ ['*', '/']).getLast? = some '/' := by
        rw [List.getLast?_append]
        rfl
      obtain rfl := Option.some.inj (hlast.symm.trans hc)
      decide
  | openBlockComment => cases hd
  | @string q body _ quote closed =>
      left
      have hlast : (q :: body).getLast? = some q := by
        rw [List.getLast?_cons, getLast?_of_readString closed]
        rfl
      obtain rfl := Option.some.inj (hlast.symm.trans hc)
      exact isWord_eq_false_of_isQuote quote
  | openString => cases hd
  | markup on => cases on

theorem Reads.separated {mode final : Mode} {s : List Char} {ts : List Token}
    (h : Reads false mode s ts final) : Separated ts := by
  induction h with
  | nil => trivial
  | cons head tail ih =>
      refine ⟨?_, ih⟩
      rw [tail.flatMap_text]
      exact head.apart

end ElementBundle.Source
