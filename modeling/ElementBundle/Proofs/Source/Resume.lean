import ElementBundle.Proofs.Source.Place

/-! # Scans that go on behind a line feed

Behind a line feed a scan goes on in code, in a string or in a block comment. In
code any text may follow: `Reads.resume`. Quiet tokens are plain code and strings
without slashes and without other quotes. They are read as they are in code,
`reads_quiet`, and where a string or a comment is open, it is still open behind
them: `Reads.code_of_quiet`.
-/

namespace ElementBundle.Source

open ElementBundle.Text ElementBundle.Markup

/-! ## Muted texts -/

/-- Text that starts no mark in code and is passed over inside of a string. -/
structure Muted (s : List Char) : Prop where
  plain : ∀ c ∈ s, c ≠ '/' ∧ isQuote c = false
  passed : ∀ {q : Char}, isQuote q = true → ∀ rest,
    readString q (s ++ rest) = (s ++ (readString q rest).1, (readString q rest).2)

theorem muted_nil : Muted [] := ⟨by simp, fun _ _ => rfl⟩

theorem Muted.append {s t : List Char} (hs : Muted s) (ht : Muted t) : Muted (s ++ t) := by
  refine ⟨fun c hc => ?_, fun hq rest => ?_⟩
  · rcases List.mem_append.1 hc with hc | hc
    · exact hs.plain c hc
    · exact ht.plain c hc
  · rw [List.append_assoc, hs.passed hq, ht.passed hq, List.append_assoc]

theorem muted_flatMap {α : Type} {f : α → List Char} {s : List α} (h : ∀ a ∈ s, Muted (f a)) :
    Muted (s.flatMap f) := by
  induction s with
  | nil => exact muted_nil
  | cons a s ih =>
      rw [List.flatMap_cons]
      exact (h a List.mem_cons_self).append (ih fun b hb => h b (List.mem_cons_of_mem a hb))

def isMuted (c : Char) : Bool :=
  !(isQuote c || c == '/' || c == '\\')

theorem muted_singleton {c : Char} (h : isMuted c = true) : Muted [c] := by
  have hc : (isQuote c = false ∧ c ≠ '/') ∧ c ≠ '\\' := by simpa [isMuted] using h
  refine ⟨by simp [hc], fun {q} hq rest => ?_⟩
  have hne : c ≠ q := by
    rintro rfl
    rw [hc.1.1] at hq
    cases hq
  rw [List.singleton_append, readString_plain hc.2, if_neg hne, List.singleton_append]

theorem muted_of_all {s : List Char} (h : s.all isMuted = true) : Muted s := by
  rw [← List.flatMap_singleton' s]
  exact muted_flatMap fun c hc => muted_singleton (List.all_eq_true.1 h c hc)

theorem muted_escape {c : Char} (h : isMuted c = true) : Muted ['\\', c] := by
  refine ⟨fun d hd => ?_, fun hq rest => ?_⟩
  · rcases List.mem_cons.1 hd with rfl | hd
    · exact ⟨by decide, by decide⟩
    · exact (muted_singleton h).plain d hd
  · rw [List.cons_append, List.singleton_append, readString_escape]
    rfl

/-- Only slashes and quotes start a mark, and brackets where markup is recognised. -/
theorem unmarked_of_plain {markup : Bool} {s : List Char}
    (h : ∀ c ∈ s, c ≠ '/' ∧ isQuote c = false) (hmarkup : markup = true → '<' ∉ s)
    (afterColon : Bool) (rest : List Char) : Unmarked markup afterColon s rest := by
  induction s generalizing afterColon with
  | nil => trivial
  | cons c s ih =>
      obtain ⟨⟨hslash, hquote⟩, hrest⟩ := List.forall_mem_cons.1 h
      have hbracket : (markup && c == '<') = false := by
        rw [Bool.and_eq_false_iff, beq_eq_false_iff_ne]
        by_cases hon : markup = true
        · exact .inr fun hc => hmarkup hon (hc ▸ List.mem_cons_self)
        · exact .inl (Bool.eq_false_iff.2 hon)
      refine ⟨by simp [opener?, hslash, hquote, hbracket], ih hrest (fun hon hm => ?_) (c == ':')⟩
      exact hmarkup hon (List.mem_cons_of_mem c hm)

theorem Muted.unmarked {s : List Char} (h : Muted s) (afterColon : Bool) (rest : List Char) :
    Unmarked false afterColon s rest :=
  unmarked_of_plain h.plain (by simp) afterColon rest

/-! ## Quiet tokens -/

/-- Muted code, and strings of muted text. -/
inductive Quiet : Token → Prop
  | code {text : List Char} (nonempty : text ≠ []) (muted : Muted text) : Quiet (.code text)
  | string {q : Char} {text : List Char} (quote : isQuote q = true) (muted : Muted text) :
      Quiet (.string (q :: (text ++ [q])))

theorem Quiet.slash_not_mem {t : Token} (h : Quiet t) : '/' ∉ t.text := by
  cases h with
  | code _ muted => exact fun hm => (muted.plain '/' hm).1 rfl
  | @string q text quote muted =>
      have hq : '/' ≠ q := by
        rintro rfl
        cases quote
      have htext : '/' ∉ text := fun hm => (muted.plain '/' hm).1 rfl
      simp [Token.text, hq, htext]

theorem slash_not_mem_quiet {ms : List Token} (h : ∀ t ∈ ms, Quiet t) :
    '/' ∉ ms.flatMap Token.text := by
  intro hm
  obtain ⟨t, ht, hslash⟩ := List.mem_flatMap.1 hm
  exact (h t ht).slash_not_mem hslash

/-- Quiet tokens are read in front of any text that starts with no slash. -/
theorem reads_quiet {ms us : List Token} {rest : List Char} {final : Mode}
    (hms : ∀ t ∈ ms, Quiet t) (hslash : rest.head? ≠ some '/')
    (h : Reads false .code rest us final) :
    Reads false .code (ms.flatMap Token.text ++ rest) (ms.foldr Token.push us) final := by
  induction ms with
  | nil => exact h
  | cons t ms ih =>
      have hms' : ∀ t ∈ ms, Quiet t := fun u hu => hms u (List.mem_cons_of_mem t hu)
      have htail := ih hms'
      rw [List.flatMap_cons, List.append_assoc, List.foldr_cons]
      cases hms t List.mem_cons_self with
      | code nonempty muted =>
          refine htail.push_code nonempty (muted.unmarked false _) ?_
          intro _ u hu
          have hfront := slash_not_mem_quiet hms'
          generalize ms.flatMap Token.text = front at hu hfront
          cases front with
          | nil =>
              obtain rfl : rest = '/' :: '/' :: u := hu
              exact hslash rfl
          | cons c front =>
              obtain rfl := (List.cons.inj hu).1
              exact hfront List.mem_cons_self
      | @string q text quote muted =>
          have hclosed : readString q (text ++ [q]) = (text ++ [q], true, []) := by
            rw [muted.passed quote, readString_plain (ne_backslash_of_isQuote quote), if_pos rfl]
          exact .cons (.string quote hclosed) htail

/-! ## Open strings -/

/-- A string that is open in front of a text, or one with the same quote, is open behind it. -/
def Stays (q : Char) (s : List Char) : Prop :=
  (readString q s).2.1 = false ∨
    (readString q s).2.1 = true ∧ ∃ ts, Reads false .code (readString q s).2.2 ts (.string q)

theorem Stays.passed {q : Char} {a s : List Char}
    (h : readString q (a ++ s) = (a ++ (readString q s).1, (readString q s).2))
    (hs : Stays q s) : Stays q (a ++ s) := by
  unfold Stays
  rw [h]
  exact hs

theorem Stays.exists_reads {q : Char} {s : List Char} (hq : isQuote q = true) (h : Stays q s) :
    ∃ ts, Reads false .code (q :: s) ts (.string q) := by
  rcases h with hopen | ⟨hclosed, ts, hts⟩
  · obtain ⟨htext, hrest⟩ := readString_rest_of_open hopen
    have hstands : Stands false (.string (q :: s)) (.string q) [] :=
      .openString hq (Prod.ext htext (Prod.ext hopen hrest))
    have hreads : Reads false .code (q :: s ++ []) [.string (q :: s)] (.string q) :=
      .cons hstands (.nil _)
    rw [List.append_nil] at hreads
    exact ⟨_, hreads⟩
  · have hread : readString q s = ((readString q s).1, true, (readString q s).2.2) :=
      Prod.ext rfl (Prod.ext hclosed rfl)
    have hreads : Reads false .code (q :: (readString q s).1 ++ (readString q s).2.2) _ (.string q) :=
      .cons (.string hq (readString_text_of_closed hread)) hts
    rw [List.cons_append, readString_append] at hreads
    exact ⟨_, hreads⟩

theorem Stays.quiet {q : Char} {s : List Char} {t : Token} (hq : isQuote q = true) (ht : Quiet t)
    (h : Stays q s) : Stays q (t.text ++ s) := by
  cases ht with
  | code nonempty muted => exact h.passed (muted.passed hq s)
  | @string r text quote muted =>
      have hr := ne_backslash_of_isQuote quote
      by_cases hrq : r = q
      · subst hrq
        obtain ⟨ts, hts⟩ := h.exists_reads hq
        have hread : readString r (r :: (text ++ [r]) ++ s) = ([r], true, text ++ r :: s) := by
          rw [List.cons_append, readString_plain hr, if_pos rfl, List.append_assoc]
          rfl
        unfold Stays Token.text
        rw [hread]
        refine .inr ⟨rfl, ?_⟩
        cases text with
        | nil => exact ⟨ts, hts⟩
        | cons c text =>
            refine ⟨_, hts.push_code (List.cons_ne_nil c text) (muted.unmarked false _) ?_⟩
            rintro - u hu
            obtain rfl := (List.cons.inj hu).1
            cases hq
      · refine h.passed ?_
        show readString q (r :: (text ++ [r]) ++ s) = _
        have htail : readString q (r :: s) = (r :: (readString q s).1, (readString q s).2) := by
          rw [readString_plain hr, if_neg hrq]
        rw [List.cons_append, readString_plain hr, if_neg hrq, List.append_assoc,
          muted.passed hq, List.singleton_append, htail]
        simp [Token.text]

theorem stays_quiet {q : Char} {ms : List Token} {s : List Char} (hq : isQuote q = true)
    (hms : ∀ t ∈ ms, Quiet t) (h : Stays q s) : Stays q (ms.flatMap Token.text ++ s) := by
  induction ms with
  | nil => exact h
  | cons t ms ih =>
      rw [List.flatMap_cons, List.append_assoc]
      exact (ih fun u hu => hms u (List.mem_cons_of_mem t hu)).quiet hq (hms t List.mem_cons_self)

/-- An open string that does not end with a backslash goes on with what follows. -/
theorem readString_append_of_open {q c : Char} {s : List Char} (hlast : s.getLast? = some c)
    (hc : c ≠ '\\') (hopen : (readString q s).2.1 = false) (rest : List Char) :
    readString q (s ++ rest) = (s ++ (readString q rest).1, (readString q rest).2) := by
  have htail : ∀ {s : List Char}, s ≠ [] → ∀ d, (d :: s).getLast? = some c → s.getLast? = some c := by
    intro s hs d hd
    obtain ⟨e, s, rfl⟩ := List.exists_cons_of_ne_nil hs
    rwa [List.getLast?_cons_cons] at hd
  induction s using escapedInduction with
  | nil => rfl
  | backslash => exact absurd (Option.some.inj hlast).symm hc
  | escape d s ih =>
      rw [readString_escape] at hopen
      rw [List.cons_append, List.cons_append, readString_escape]
      by_cases hs : s = []
      · subst hs
        rfl
      · rw [ih (htail hs d (htail (List.cons_ne_nil d s) '\\' hlast)) hopen]
        rfl
  | plain d s hd ih =>
      rw [readString_plain hd] at hopen
      rw [List.cons_append, readString_plain hd]
      split at hopen
      · cases hopen
      · rename_i hq
        rw [if_neg hq]
        by_cases hs : s = []
        · subst hs
          rfl
        · rw [ih (htail hs d hlast) hopen]
          rfl

/-! ## Behind a line feed -/

theorem Reads.unique_final {markup : Bool} {mode final final' : Mode} {s : List Char}
    {ts ts' : List Token} (h : Reads markup mode s ts final)
    (h' : Reads markup mode s ts' final') : final = final' := by
  have hscan : scanFrom markup 1 mode s = .ok ⟨ts, { mode := final }⟩ :=
    scanFrom_eq_ok_iff.2 ⟨final, h, rfl⟩
  have hscan' : scanFrom markup 1 mode s = .ok ⟨ts', { mode := final' }⟩ :=
    scanFrom_eq_ok_iff.2 ⟨final', h', rfl⟩
  exact congrArg (fun r => r.state.mode) (Except.ok.inj (hscan.symm.trans hscan'))

theorem scan_eq_ok_code_iff {s : List Char} {ts : List Token} :
    scan s false = .ok ⟨ts, {}⟩ ↔ Reads false .code s ts .code := by
  constructor
  · intro h
    obtain ⟨final, hreads, hstate⟩ := scan_eq_ok_iff.1 h
    cases hstate
    exact hreads
  · intro h
    exact scan_eq_ok_iff.2 ⟨.code, h, rfl⟩

theorem Reads.exists_last {mode final : Mode} {s : List Char} {c : Char} {ts : List Token}
    (h : Reads false mode (s ++ [c]) ts final) :
    ∃ a t, ts = a ++ [t] ∧ Stands false t final [] ∧ t.text.getLast? = some c := by
  rcases List.eq_nil_or_concat ts with rfl | ⟨a, t, rfl⟩
  · have htext := h.flatMap_text
    simp at htext
  · rw [List.concat_eq_append] at h ⊢
    obtain ⟨mid, hmid⟩ := h.drop
    obtain ⟨next, head, tail⟩ := hmid.uncons
    obtain rfl := (tail.of_nil rfl).2
    refine ⟨a, t, rfl, head, ?_⟩
    have hlast := congrArg List.getLast? h.flatMap_text
    rw [List.flatMap_append, List.flatMap_singleton, List.getLast?_concat,
      List.getLast?_append_of_ne_nil _ head.text_ne_nil] at hlast
    exact hlast

/-- A token that ends a text with a line feed is code, or a comment or a string that is open. -/
theorem Stands.cases_line {t : Token} {mode : Mode} {rest : List Char}
    (h : Stands false t mode rest) (hrest : rest = []) (hlast : t.text.getLast? = some '\n') :
    (mode = .code ∧ ∃ v, t = .code (v ++ ['\n']) ∧ Unmarked false false (v ++ ['\n']) []) ∨
      (mode = .blockComment ∧ ∃ body, t = .blockComment ('/' :: '*' :: body) ∧
        findFirst? ['*', '/'] body = none) ∨
      ∃ q body, mode = .string q ∧ isQuote q = true ∧ t = .string (q :: body) ∧
        (readString q body).2.1 = false ∧ body.getLast? = some '\n' := by
  cases h with
  | @code text _ nonempty unmarked marked =>
      obtain ⟨v, hv⟩ := List.getLast?_eq_some_iff.1 hlast
      obtain rfl : text = v ++ ['\n'] := hv
      exact .inl ⟨rfl, v, rfl, hrest ▸ unmarked⟩
  | @lineComment body _ oneLine stop =>
      have hmem := List.mem_of_getLast? hlast
      simp [Token.text, oneLine] at hmem
  | @blockComment body _ first =>
      have hsplit : '/' :: '*' :: body ++ ['*', '/'] = ('/' :: '*' :: (body ++ ['*'])) ++ ['/'] := by
        simp
      rw [Token.text, hsplit, List.getLast?_concat] at hlast
      exact absurd hlast (by decide)
  | openBlockComment open_ => exact .inr (.inl ⟨rfl, _, rfl, open_⟩)
  | @string q body _ quote closed =>
      have hquote : (q :: body).getLast? = some q := by
        rw [List.getLast?_cons, getLast?_of_readString closed]
        rfl
      obtain rfl := Option.some.inj (hquote.symm.trans hlast)
      cases quote
  | @openString q body quote open_ =>
      refine .inr (.inr ⟨q, body, rfl, quote, rfl, by rw [open_], ?_⟩)
      cases body with
      | nil =>
          obtain rfl : q = '\n' := Option.some.inj hlast
          cases quote
      | cons c body => rwa [Token.text, List.getLast?_cons_cons] at hlast
  | markup on => cases on

/-- A comment or a string that is closed stands in front of any text. -/
theorem Stands.of_closed {t : Token} {rest : List Char} (h : Stands false t .code rest)
    (ht : t.isCode = false) (hrest : rest = []) (rest' : List Char) : Stands false t .code rest' := by
  generalize hmode : Mode.code = mode at h
  cases h with
  | code => cases ht
  | lineComment =>
      subst hrest
      cases hmode
  | blockComment first => exact .blockComment first
  | openBlockComment => cases hmode
  | string quote closed => exact .string quote closed
  | openString => cases hmode
  | markup on => cases on

theorem Reads.resume {mode final : Mode} {s rest : List Char} {ts us : List Token}
    (h : Reads false mode (s ++ ['\n']) ts .code) (hrest : Reads false .code rest us final) :
    Reads false mode (s ++ ['\n'] ++ rest) (ts.foldr Token.push us) final := by
  obtain ⟨a, t, rfl, hstands, hlast⟩ := h.exists_last
  obtain ⟨-, v, rfl, hunmarked⟩ | ⟨hmode, -⟩ | ⟨_, _, hmode, -⟩ := hstands.cases_line rfl hlast
  · have halike : Alike ['\n'] ('\n' :: rest) := alike_of_head (by decide) (by decide) _ _
    have hunmarked' : Unmarked false false (v ++ ['\n']) rest := by
      refine unmarked_append.2 ⟨unmarked_of_alike halike (unmarked_append.1 hunmarked).1, ?_⟩
      exact (muted_singleton (by decide)).unmarked _ rest
    have hcolon : colonAfter false (v ++ ['\n']) = false := by
      rw [colonAfter_append]
      rfl
    have htail : Reads false .code (v ++ ['\n'] ++ rest) (Token.push (.code (v ++ ['\n'])) us) final :=
      hrest.push_code (by simp) hunmarked' fun htrue => absurd (hcolon.symm.trans htrue) (by decide)
    have hsplice := h.splice (by simpa [Token.text] using halike.append v) (by simp) htail
    rw [← h.flatMap_text, List.foldr_append]
    simpa [Token.text] using hsplice
  · cases hmode
  · cases hmode

theorem Reads.resume_string {mode : Mode} {q : Char} {s rest : List Char} {ts : List Token}
    (h : Reads false mode (s ++ ['\n']) ts (.string q)) (hrest : isQuote q = true → Stays q rest) :
    ∃ us, Reads false mode (s ++ ['\n'] ++ rest) us (.string q) := by
  obtain ⟨a, t, rfl, hstands, hlast⟩ := h.exists_last
  obtain ⟨hmode, -⟩ | ⟨hmode, -⟩ | ⟨q', body, hmode, quote, rfl, hopen, hbody⟩ :=
    hstands.cases_line rfl hlast
  · cases hmode
  · cases hmode
  · cases hmode
    have hpassed := readString_append_of_open hbody (by decide) hopen rest
    obtain ⟨us, hus⟩ := ((hrest quote).passed hpassed).exists_reads quote
    have hslash : q ≠ '/' ∧ q ≠ '*' := by
      constructor <;> rintro rfl <;> cases quote
    have halike : Alike (q :: body) (q :: (body ++ rest)) := alike_of_head hslash.1 hslash.2 _ _
    have hsplice := h.splice (by simpa [Token.text] using halike) (by simp) hus
    rw [← h.flatMap_text]
    exact ⟨_, by simpa [Token.text] using hsplice⟩

theorem findFirst?_append_eq_none {body rest : List Char} (h : findFirst? ['*', '/'] body = none)
    (hrest : '/' ∉ rest) : findFirst? ['*', '/'] (body ++ rest) = none := by
  rw [findFirst?_eq_none_iff] at h ⊢
  rintro ⟨a, b, hs⟩
  rcases List.append_eq_append_iff.1 hs with ⟨x, hx, -⟩ | ⟨x, hx, hrest'⟩
  · exact h ⟨a, x, hx.symm⟩
  · rcases List.eq_nil_or_concat x with rfl | ⟨x, c, rfl⟩
    · exact h ⟨a, [], by simpa using hx⟩
    · have hlast := congrArg List.getLast? hx
      simp only [List.concat_eq_append, ← List.append_assoc, List.getLast?_concat] at hlast
      have hc : c = '/' := by simpa using hlast.symm
      rw [hrest', hc] at hrest
      simp at hrest

/-- Lines that end in a block comment are read on in it, if no slash follows. -/
theorem Reads.resume_blockComment {mode : Mode} {s rest : List Char} {ts : List Token}
    (h : Reads false mode (s ++ ['\n']) ts .blockComment) (hrest : '/' ∉ rest) :
    ∃ us, Reads false mode (s ++ ['\n'] ++ rest) us .blockComment := by
  obtain ⟨a, t, rfl, hstands, hlast⟩ := h.exists_last
  obtain ⟨hmode, -⟩ | ⟨-, body, rfl, hopen⟩ | ⟨_, _, hmode, -⟩ := hstands.cases_line rfl hlast
  · cases hmode
  · have hstands' : Stands false (.blockComment ('/' :: '*' :: (body ++ rest))) .blockComment [] :=
      .openBlockComment (findFirst?_append_eq_none hopen hrest)
    have hus : Reads false .code (_ ++ []) [_] .blockComment := .cons hstands' (.nil _)
    rw [List.append_nil] at hus
    have halike := alike_of_two '/' '*' body (body ++ rest)
    have hsplice := h.splice (by simpa [Token.text] using halike) (by simp [Token.text]) hus
    rw [← h.flatMap_text]
    exact ⟨_, by simpa [Token.text] using hsplice⟩
  · cases hmode

theorem Reads.code_of_quiet {mode final : Mode} {s rest : List Char} {ts ms us : List Token}
    (h : Reads false mode (s ++ ['\n']) ts final) (hms : ∀ t ∈ ms, Quiet t) (hrest : Muted rest)
    (hcode : Reads false mode (s ++ ['\n'] ++ (ms.flatMap Token.text ++ rest)) us .code) :
    final = .code := by
  have hslash : '/' ∉ ms.flatMap Token.text ++ rest := by
    intro hm
    rcases List.mem_append.1 hm with hm | hm
    · exact slash_not_mem_quiet hms hm
    · exact (hrest.plain '/' hm).1 rfl
  obtain ⟨a, t, -, hstands, hlast⟩ := h.exists_last
  obtain ⟨hmode, -⟩ | ⟨rfl, -⟩ | ⟨q, _, rfl, hq, -⟩ := hstands.cases_line rfl hlast
  · exact hmode
  · obtain ⟨us', hus⟩ := h.resume_blockComment hslash
    exact hus.unique_final hcode
  · have hnil : Stays q [] := .inl rfl
    have hstays : Stays q (ms.flatMap Token.text ++ rest) := by
      refine stays_quiet hq hms ?_
      rw [← List.append_nil rest]
      exact hnil.passed (hrest.passed hq [])
    obtain ⟨us', hus⟩ := h.resume_string fun _ => hstays
    exact hus.unique_final hcode

end ElementBundle.Source
