import ElementBundle.Proofs.Component.Edit
import ElementBundle.Proofs.Component.Outcome
import ElementBundle.Proofs.Source.Place

/-! # Where the facts about a component come from

The directive, the constructor and the base class of a component are looked for
in the text of its body, whatever the scanner takes a place for. So each of them
comes from the token that is meant for it or from one that is not, and it is
said here which ones these can be.
-/

namespace ElementBundle.Component

open ElementBundle.Text ElementBundle.Source ElementBundle.Markup

/-! ## Words in a text -/

theorem getLast?_cons_or (c : Char) (a : List Char) (before : Option Char) :
    (c :: a).getLast?.or before = a.getLast?.or (some c) := by
  rw [List.getLast?_cons]
  cases a.getLast? <;> rfl

/-- A word is found where it stands behind a boundary and in front of a text that passes the test. -/
theorem hasWord_iff {word : List Char} (hword : word ≠ []) {test : List Char → Bool}
    {before : Option Char} {s : List Char} :
    hasWord word test before s = true ↔
      ∃ a r, s = a ++ (word ++ r) ∧ atBoundary (a.getLast?.or before) = true ∧ test r = true := by
  induction s generalizing before with
  | nil =>
      constructor
      · intro h
        cases h
      · rintro ⟨a, r, hs, -⟩
        exact absurd (List.append_eq_nil_iff.1 (List.append_eq_nil_iff.1 hs.symm).2).1 hword
  | cons c s ih =>
      rw [hasWord, Bool.or_eq_true, ih, Bool.and_eq_true]
      constructor
      · rintro (⟨hbefore, hlead⟩ | ⟨a, r, rfl, ha, hr⟩)
        · cases hdrop : dropLeading? word (c :: s) with
          | none =>
              rw [hdrop] at hlead
              cases hlead
          | some r =>
              rw [hdrop] at hlead
              refine ⟨[], r, ?_, hbefore, hlead⟩
              rw [dropLeading?_eq_some_iff.1 hdrop]
              rfl
        · exact ⟨c :: a, r, rfl, by rwa [getLast?_cons_or], hr⟩
      · rintro ⟨a, r, hs, ha, hr⟩
        cases a with
        | nil =>
            left
            refine ⟨ha, ?_⟩
            rw [List.nil_append] at hs
            rw [dropLeading?_eq_some_iff.2 hs]
            exact hr
        | cons d a =>
            obtain ⟨rfl, htail⟩ := List.cons.inj hs
            rw [getLast?_cons_or] at ha
            exact .inr ⟨a, r, htail, ha, hr⟩

/-- Whether a text ends here or goes on with no word character. -/
def endsWord (s : List Char) : Bool :=
  atBoundary s.head?

theorem getLast?_append_of_ne_nil {a u : List Char} (hu : u ≠ []) :
    (a ++ u).getLast? = u.getLast? := by
  obtain ⟨c, hc⟩ := Option.isSome_iff_exists.1 (List.getLast?_isSome.2 hu)
  rw [List.getLast?_append, hc]
  rfl

theorem exists_getLast?_mem {s : List Char} (hs : s ≠ []) : ∃ c ∈ s, s.getLast? = some c := by
  obtain ⟨c, hc⟩ := Option.isSome_iff_exists.1 (List.getLast?_isSome.2 hs)
  exact ⟨c, List.mem_of_getLast? hc, hc⟩

theorem atBoundary_getLast? {s s' : List Char} {d : Char} (h : Apart s s')
    (hd : s'.head? = some d) (hword : isWord d = true) : atBoundary s.getLast? = true := by
  cases hc : s.getLast? with
  | none => rfl
  | some c =>
      rcases h c d hc hd with hfalse | hfalse
      · simp [atBoundary, hfalse]
      · rw [hword] at hfalse
        cases hfalse

theorem atBoundary_head? {s s' : List Char} {c : Char} (h : Apart s s')
    (hc : s.getLast? = some c) (hword : isWord c = true) : atBoundary s'.head? = true := by
  cases hd : s'.head? with
  | none => rfl
  | some d =>
      rcases h c d hc hd with hfalse | hfalse
      · rw [hword] at hfalse
        cases hfalse
      · simp [atBoundary, hfalse]

theorem hasWord_append {word s s' : List Char} (hne : word ≠ [])
    (hword : ∀ c ∈ word, isWord c = true) (h : Apart s s') :
    hasWord word endsWord none (s ++ s') = true ↔
      hasWord word endsWord none s = true ∨ hasWord word endsWord none s' = true := by
  simp only [hasWord_iff hne, Option.or_none, endsWord]
  constructor
  · rintro ⟨a, r, hs, ha, hr⟩
    rcases List.append_eq_append_iff.1 hs with ⟨a', rfl, hs'⟩ | ⟨x, rfl, hx⟩
    · refine .inr ⟨a', r, hs', ?_, hr⟩
      by_cases ha' : a' = []
      · rw [ha']
        rfl
      · rwa [getLast?_append_of_ne_nil ha'] at ha
    · rcases List.append_eq_append_iff.1 hx with ⟨y, rfl, rfl⟩ | ⟨y, rfl, rfl⟩
      · refine .inl ⟨a, y, rfl, ha, ?_⟩
        by_cases hy : y = []
        · rw [hy]
          rfl
        · rwa [List.head?_append_of_ne_nil y hy] at hr
      · by_cases hy : y = []
        · subst hy
          exact .inl ⟨a, [], by simp, ha, rfl⟩
        · by_cases hempty : x = []
          · subst hempty
            exact .inr ⟨[], r, rfl, rfl, hr⟩
          · obtain ⟨c, hc, hlast⟩ := exists_getLast?_mem hempty
            obtain ⟨d, y, rfl⟩ := List.exists_cons_of_ne_nil hy
            have hseam := h c d (by rw [getLast?_append_of_ne_nil hempty, hlast]) rfl
            rw [hword c (List.mem_append_left _ hc),
              hword d (List.mem_append_right x List.mem_cons_self)] at hseam
            rcases hseam with hseam | hseam <;> cases hseam
  · rintro (⟨a, r, rfl, ha, hr⟩ | ⟨a, r, rfl, ha, hr⟩)
    · refine ⟨a, r ++ s', by simp, ha, ?_⟩
      by_cases hr' : r = []
      · subst hr'
        obtain ⟨c, hc, hlast⟩ := exists_getLast?_mem hne
        have hend : (a ++ (word ++ [])).getLast? = some c := by
          rw [List.append_nil, getLast?_append_of_ne_nil hne, hlast]
        exact atBoundary_head? h hend (hword c hc)
      · rwa [List.head?_append_of_ne_nil r hr']
    · refine ⟨s ++ a, r, by simp, ?_, hr⟩
      by_cases ha' : a = []
      · subst ha'
        obtain ⟨d, word, rfl⟩ := List.exists_cons_of_ne_nil hne
        rw [List.append_nil]
        exact atBoundary_getLast? h rfl (hword d List.mem_cons_self)
      · rwa [getLast?_append_of_ne_nil ha']

/-! ## Base classes -/

theorem isWord_of_mem_extends : ∀ c ∈ "extends".toList, isWord c = true :=
  List.all_eq_true.1 (by decide)

theorem hasBaseClass_append {s s' : List Char} (h : Apart s s') :
    hasBaseClass (s ++ s') = true ↔ hasBaseClass s = true ∨ hasBaseClass s' = true :=
  hasWord_append (by decide) isWord_of_mem_extends h

/-- A base class is named in one of the tokens that spell a header. -/
theorem hasBaseClass_flatMap_text {ts : List Token} (h : Separated ts) :
    hasBaseClass (ts.flatMap Token.text) = true ↔ ∃ t ∈ ts, hasBaseClass t.text = true := by
  induction ts with
  | nil =>
      constructor
      · intro h
        cases h
      · rintro ⟨t, ht, -⟩
        cases ht
  | cons t ts ih =>
      rw [List.flatMap_cons, hasBaseClass_append h.1, ih h.2]
      simp

/-- Tokens up to the first opening brace in code. -/
def upToBrace : List Token → List Token
  | [] => []
  | .code text :: ts =>
    if '{' ∈ text then [.code (text.takeWhile (· ≠ '{'))] else .code text :: upToBrace ts
  | t :: ts => t :: upToBrace ts

theorem upToBrace_front (ts : List Token) :
    (upToBrace ts).flatMap Token.text <+: ts.flatMap Token.text := by
  fun_induction upToBrace ts with
  | case1 => exact List.prefix_rfl
  | case2 text ts hbrace =>
      simp only [List.flatMap_cons, List.flatMap_nil, List.append_nil, Token.text]
      exact ( List.takeWhile_prefix _).trans (List.prefix_append text _)
  | case3 text ts hbrace ih =>
      rw [List.flatMap_cons, List.flatMap_cons]
      exact (List.prefix_append_right_inj _).2 ih
  | case4 t ts hcode ih =>
      rw [List.flatMap_cons, List.flatMap_cons]
      exact (List.prefix_append_right_inj _).2 ih

theorem apart_of_front {s s' u : List Char} (h : Apart s s') (hu : u <+: s') : Apart s u := by
  intro c d hc hd
  have hne : u ≠ [] := by
    rintro rfl
    cases hd
  exact h c d hc (by rw [← head?_eq_of_prefix hu hne, hd])

theorem separated_upToBrace {ts : List Token} (h : Separated ts) : Separated (upToBrace ts) := by
  fun_induction upToBrace ts with
  | case1 => trivial
  | case2 text ts hbrace =>
      refine ⟨?_, trivial⟩
      intro c d _ hd
      cases hd
  | case3 text ts hbrace ih => exact ⟨apart_of_front h.1 (upToBrace_front ts), ih h.2⟩
  | case4 t ts hcode ih => exact ⟨apart_of_front h.1 (upToBrace_front ts), ih h.2⟩

theorem takeWhile_append_of_mem {p : Char → Bool} {s : List Char} (h : ∃ c ∈ s, p c = false)
    (rest : List Char) : (s ++ rest).takeWhile p = s.takeWhile p := by
  induction s with
  | nil =>
      obtain ⟨c, hc, -⟩ := h
      cases hc
  | cons d s ih =>
      rw [List.cons_append]
      cases hd : p d with
      | false => simp [hd]
      | true =>
          obtain ⟨c, hc, hpc⟩ := h
          have hmem : ∃ c ∈ s, p c = false := by
            rcases List.mem_cons.1 hc with rfl | hc
            · rw [hd] at hpc
              cases hpc
            · exact ⟨c, hc, hpc⟩
          simp only [List.takeWhile_cons, hd, if_true, ih hmem]

/-- Where only code holds the brace, a header ends at the first one in code. -/
theorem takeWhile_flatMap_text {ts : List Token}
    (h : ∀ t ∈ upToBrace ts, t.isCode = false → '{' ∉ t.text) :
    (ts.flatMap Token.text).takeWhile (· ≠ '{') = (upToBrace ts).flatMap Token.text := by
  have whole : ∀ {text rest : List Char}, '{' ∉ text →
      (text ++ rest).takeWhile (· ≠ '{') = text ++ rest.takeWhile (· ≠ '{') := by
    intro text rest hbrace
    refine List.takeWhile_append_of_pos fun c hc => ?_
    have hne : c ≠ '{' := fun heq => hbrace (heq ▸ hc)
    simpa using hne
  fun_induction upToBrace ts with
  | case1 => rfl
  | case2 text ts hbrace =>
      simp only [List.flatMap_cons, List.flatMap_nil, List.append_nil, Token.text]
      exact takeWhile_append_of_mem ⟨'{', hbrace, by simp⟩ _
  | case3 text ts hbrace ih =>
      rw [List.flatMap_cons, List.flatMap_cons]
      have htail := ih fun t ht => h t (List.mem_cons_of_mem _ ht)
      rw [← htail]
      exact whole hbrace
  | case4 t ts hcode ih =>
      have ht : t.isCode = false := by
        cases t with
        | code text => exact absurd rfl (hcode text)
        | _ => rfl
      rw [List.flatMap_cons, List.flatMap_cons, whole (h t List.mem_cons_self ht),
        ih fun u hu => h u (List.mem_cons_of_mem _ hu)]

/-! ## Constructors -/

def ConstructorAt (s : List Char) : Prop :=
  ∃ blanks rest, (∀ c ∈ blanks, isBlank c = true) ∧
    s = "constructor".toList ++ (blanks ++ '(' :: rest)

theorem head?_dropWhile_iff {s : List Char} :
    ((s.dropWhile isBlank).head? == some '(') = true ↔
      ∃ blanks rest, (∀ c ∈ blanks, isBlank c = true) ∧ s = blanks ++ '(' :: rest := by
  constructor
  · intro h
    obtain ⟨rest, hrest⟩ := List.head?_eq_some_iff.1 (beq_iff_eq.1 h)
    refine ⟨s.takeWhile isBlank, rest, fun c hc => List.mem_takeWhile_imp hc, ?_⟩
    rw [← hrest, List.takeWhile_append_dropWhile]
  · rintro ⟨blanks, rest, hblank, rfl⟩
    rw [dropWhile_append_stop hblank (by show isBlank '(' = false; decide)]
    rfl

theorem hasConstructor_iff {s : List Char} :
    hasConstructor s = true ↔
      ∃ a b, s = a ++ b ∧ atBoundary a.getLast? = true ∧ ConstructorAt b := by
  have hword : "constructor".toList ≠ [] := by decide
  unfold hasConstructor ConstructorAt
  rw [hasWord_iff hword]
  constructor
  · rintro ⟨a, r, rfl, ha, hr⟩
    obtain ⟨blanks, rest, hblank, rfl⟩ := head?_dropWhile_iff.1 hr
    rw [Option.or_none] at ha
    exact ⟨a, _, rfl, ha, blanks, rest, hblank, rfl⟩
  · rintro ⟨a, b, rfl, ha, blanks, rest, hblank, rfl⟩
    exact ⟨a, _, rfl, by rwa [Option.or_none], head?_dropWhile_iff.2 ⟨blanks, rest, hblank, rfl⟩⟩

theorem plain_of_mem_constructor :
    ∀ c ∈ "constructor".toList, c ≠ '/' ∧ isQuote c = false := by
  intro c hc
  have hall : "constructor".toList.all (fun c => c ≠ '/' && !isQuote c) = true := by decide
  simpa using List.all_eq_true.1 hall c hc

theorem plain_of_class {p : Char → Bool} {c : Char} (hc : p c = true)
    (hp : ['/', '\'', '"', '`'].all (fun c => !p c) = true) : c ≠ '/' ∧ isQuote c = false := by
  simp only [List.all_cons, List.all_nil, Bool.and_true, Bool.and_eq_true, Bool.not_eq_true'] at hp
  obtain ⟨hslash, hsingle, hdouble, htick⟩ := hp
  constructor
  · rintro rfl
    rw [hslash] at hc
    cases hc
  · cases hq : isQuote c with
    | false => rfl
    | true =>
        simp only [isQuote, Bool.or_eq_true, beq_iff_eq] at hq
        rcases hq with (rfl | rfl) | rfl <;> simp_all

theorem constructorAt_of_stands {text v rest : List Char} {mode : Mode}
    (h : Stands false (.code text) mode rest) (hat : ConstructorAt (v ++ rest)) :
    ConstructorAt v := by
  obtain ⟨blanks, more, hblank, heq⟩ := hat
  have hfront : "constructor".toList ++ (blanks ++ ['(']) <+: v ++ rest :=
    ⟨more, by rw [heq]; simp only [List.append_assoc, List.singleton_append]⟩
  obtain ⟨more', rfl⟩ := h.prefix_of_code hfront (by
    intro c hc
    rcases List.mem_append.1 hc with hc | hc
    · exact plain_of_mem_constructor c hc
    · rcases List.mem_append.1 hc with hc | hc
      · exact plain_of_class (hblank c hc) (by decide)
      · obtain rfl := List.mem_singleton.1 hc
        decide)
  exact ⟨blanks, more', hblank, by simp only [List.append_assoc, List.singleton_append]⟩

theorem apart_flatMap_text {front back : List Token} (h : Separated (front ++ back)) :
    Apart (front.flatMap Token.text) (back.flatMap Token.text) := by
  induction front with
  | nil =>
      intro c d hc
      cases hc
  | cons t front ih =>
      by_cases hempty : front.flatMap Token.text = []
      · have happart := h.1
        rw [List.append_eq, List.flatMap_append, hempty, List.nil_append] at happart
        rw [List.flatMap_cons, hempty, List.append_nil]
        exact happart
      · intro c d hc hd
        rw [List.flatMap_cons, getLast?_append_of_ne_nil hempty] at hc
        exact ih h.2 c d hc hd

/-- A constructor of a body starts in code and is one of its run, or it starts in a comment or a
string. -/
theorem hasConstructor_iff_of_reads {mode final : Mode} {s : List Char} {ts : List Token}
    (h : Reads false mode s ts final) :
    hasConstructor s = true ↔
      (∃ text, .code text ∈ ts ∧ hasConstructor text = true) ∨
        ∃ a b t u v, Inside ts a b t u v ∧ t.isCode = false ∧
          atBoundary a.getLast? = true ∧ ConstructorAt b := by
  constructor
  · intro hs
    obtain ⟨a, b, rfl, ha, hat⟩ := hasConstructor_iff.1 hs
    have hb : b ≠ [] := by
      obtain ⟨blanks, rest, -, rfl⟩ := hat
      simp
    obtain ⟨t, u, v, hinside⟩ := exists_inside h.flatMap_text hb
    cases ht : t.isCode with
    | false => exact .inr ⟨a, b, t, u, v, hinside, ht, ha, hat⟩
    | true =>
        cases t with
        | code text =>
            obtain ⟨next, rest, hstands, rfl⟩ := hinside.stands h
            refine .inl ⟨text, hinside.mem, hasConstructor_iff.2
              ⟨u, v, hinside.text, ?_, constructorAt_of_stands hstands hat⟩⟩
            obtain ⟨front, back, -, rfl, -⟩ := hinside.split
            by_cases hu : u = []
            · rw [hu]
              rfl
            · rwa [getLast?_append_of_ne_nil hu] at ha
        | _ => cases ht
  · rintro (⟨text, hmem, htext⟩ | ⟨a, b, t, u, v, hinside, -, ha, hat⟩)
    · obtain ⟨u, v, rfl, hu, blanks, rest, hblank, rfl⟩ := hasConstructor_iff.1 htext
      obtain ⟨front, back, rfl⟩ := List.append_of_mem hmem
      refine hasConstructor_iff.2 ⟨front.flatMap Token.text ++ u, _, ?_, ?_, blanks,
        rest ++ back.flatMap Token.text, hblank, rfl⟩
      · rw [← h.flatMap_text]
        simp only [List.flatMap_append, List.flatMap_cons, Token.text, List.append_assoc,
          List.cons_append]
      · by_cases hempty : u = []
        · subst hempty
          rw [List.append_nil]
          exact atBoundary_getLast? (apart_flatMap_text h.separated) rfl (by decide)
        · rwa [getLast?_append_of_ne_nil hempty]
    · exact hasConstructor_iff.2 ⟨a, b, h.flatMap_text.symm.trans hinside.flatMap_text, ha, hat⟩

/-! ## Directives -/

/-- What a place is at which a directive was found, `u` being in front of it in the token and `v`
behind: a line comment that holds all of it, a line comment with the end of the directive on a later
line, another comment or a string, or code behind a colon. -/
inductive DirectivePlace (directive u v : List Char) : Token → Prop
  | comment {text : List Char} (whole : directive <+: v) :
      DirectivePlace directive u v (.lineComment text)
  | overrun {text : List Char} (feed : '\n' ∈ directive) :
      DirectivePlace directive u v (.lineComment text)
  | blockComment (text : List Char) : DirectivePlace directive u v (.blockComment text)
  | string (text : List Char) : DirectivePlace directive u v (.string text)
  | code {text : List Char} (colon : u.getLast? = some ':') :
      DirectivePlace directive u v (.code text)

theorem directivePlace_of_inside {mode final : Mode} {s a b u v directive : List Char}
    {ts : List Token} {t : Token} (hreads : Reads false mode s ts final)
    (h : Inside ts a b t u v) (hfront : directive <+: b)
    (hslashes : ∃ x, directive = '/' :: '/' :: x) : DirectivePlace directive u v t := by
  obtain ⟨next, rest, hstands, rfl⟩ := h.stands hreads
  cases t with
  | code text =>
      obtain rfl : text = u ++ v := h.text
      obtain ⟨x, rfl⟩ := hslashes
      obtain ⟨y, hy⟩ := hfront
      exact .code (hstands.colon_of_slashes ⟨x ++ y, hy.symm⟩ h.nonempty)
  | lineComment text =>
      by_cases hfeed : '\n' ∈ directive
      · exact .overrun hfeed
      · exact .comment ((hstands.prefix_of_lineComment h.text hfront).2 hfeed)
  | blockComment text => exact .blockComment text
  | string text => exact .string text
  | markup text block =>
      generalize ht : Token.markup text block = t at hstands
      cases hstands with
      | markup on => cases on
      | _ => cases ht

/-! ## The head of a body -/

theorem exists_code_of_stands {t : Token} {mode : Mode} {rest : List Char} {c : Char}
    (h : Stands false t mode rest) (hc : t.text.head? = some c) (hslash : c ≠ '/')
    (hquote : isQuote c = false) : ∃ text, t = .code text := by
  cases h with
  | code => exact ⟨_, rfl⟩
  | string quote | openString quote =>
      obtain rfl := Option.some.inj hc
      rw [hquote] at quote
      cases quote
  | markup on => cases on
  | _ => exact absurd (Option.some.inj hc).symm hslash

/-- The head of a class at the front of a chain stands in its first token. -/
theorem exists_head_token {mode final : Mode} {body name rest : List Char} {ts : List Token}
    (hreads : Reads false mode body ts final) (hclass : readClass? body = some (name, rest)) :
    ∃ head tail post, ts = .code (head ++ tail) :: post ∧
      readClass? (head ++ tail) = some (name, tail) ∧ rest = tail ++ post.flatMap Token.text := by
  obtain ⟨blanks, hne, hblank, hstart, hident, hstop, hbody⟩ := readClass?_eq_some_iff.1 hclass
  have hplain : ∀ c ∈ classWord ++ blanks ++ name, c ≠ '/' ∧ isQuote c = false :=
    fun c hc => plain_of_class (isHeadChar_of_mem hblank hstart hident c hc) (by decide)
  have htext := hreads.flatMap_text
  rw [hbody] at htext
  cases ts with
  | nil => cases htext
  | cons t post =>
      obtain ⟨next, hstands, -⟩ := hreads.uncons
      rw [List.flatMap_cons] at htext
      have hhead : t.text.head? = some 'c' := by
        obtain ⟨c, s, hs⟩ := List.exists_cons_of_ne_nil hstands.text_ne_nil
        rw [hs] at htext ⊢
        rw [(List.cons.inj htext).1]
        rfl
      obtain ⟨text, rfl⟩ := exists_code_of_stands hstands hhead (by decide) (by decide)
      obtain ⟨tail, rfl⟩ := hstands.prefix_of_code ⟨rest, htext.symm⟩ hplain
      have hrest : rest = tail ++ post.flatMap Token.text := by
        simp only [Token.text, List.append_assoc] at htext
        simpa using htext.symm
      refine ⟨_, tail, post, rfl, readClass?_eq_some_iff.2
        ⟨blanks, hne, hblank, hstart, hident, ?_, rfl⟩, hrest⟩
      cases tail with
      | nil => rfl
      | cons c tail =>
          rw [hrest] at hstop
          exact hstop

theorem describe_facts {body : List Char} {tag : Option (List Char)} {d : Descriptor}
    {remarks : List Remark} (h : describe body tag = .ok (d, remarks)) :
    d.hasConstructor = hasConstructor body ∧
      ∃ heritage, classHeader? body = some (d.className, heritage) ∧
        d.hasBaseClass = hasBaseClass heritage := by
  unfold describe at h
  dsimp only at h
  split at h
  · cases h
  · rename_i name heritage hheader
    split at h
    · cases h
    · cases h
      exact ⟨rfl, heritage, hheader, rfl⟩

/-! ## Located bodies -/

/-- Where a description of a body comes from, `ts` being the tokens of the body and `header` those
from the name of its class to the first opening brace in code. -/
structure Origins (tag : Option (List Char)) (body : List Char) (ts header : List Token)
    (d : Descriptor) : Prop where
  /-- The directive is the first that can be read, at a place of one of five kinds. -/
  directive : ∃ a b t u v found, Inside ts a b t u v ∧
    (∀ i < a.length, readDirective? tag (body.drop i) = none) ∧
    readDirective? tag b = some found ∧ found.text = d.directive ∧ DirectivePlace d.directive u v t
  /-- A constructor stands in a run of code, or starts in a comment or a string. -/
  constructor : d.hasConstructor = true ↔
    (∃ text, .code text ∈ ts ∧ hasConstructor text = true) ∨
      ∃ a b t u v, Inside ts a b t u v ∧ t.isCode = false ∧
        atBoundary a.getLast? = true ∧ ConstructorAt b
  /-- A base class is named in a run of code, or in a comment or a string, as long as these hold no
  brace in front of the one in code. -/
  baseClass : (∀ t ∈ header, t.isCode = false → '{' ∉ t.text) →
    (d.hasBaseClass = true ↔
      (∃ text, .code text ∈ header ∧ hasBaseClass text = true) ∨
        ∃ t ∈ header, t.isCode = false ∧ hasBaseClass t.text = true)

theorem exists_mem_split {ts : List Token} {p : List Char → Bool} :
    (∃ t ∈ ts, p t.text = true) ↔
      (∃ text, .code text ∈ ts ∧ p text = true) ∨
        ∃ t ∈ ts, t.isCode = false ∧ p t.text = true := by
  constructor
  · rintro ⟨t, ht, hp⟩
    cases t with
    | code text => exact .inl ⟨text, ht, hp⟩
    | _ => exact .inr ⟨_, ht, rfl, hp⟩
  · rintro (⟨text, ht, hp⟩ | ⟨t, ht, -, hp⟩)
    · exact ⟨_, ht, hp⟩
    · exact ⟨t, ht, hp⟩

/-- The facts about a located body come from the tokens that are meant for them, or from others of
known kinds. -/
theorem describe_origins {script : List Char} {span : Span} {tag : Option (List Char)}
    {d : Descriptor} {remarks : List Remark} (hspan : locate script = .ok span)
    (hdescribe : describe (span.slice script) tag = .ok (d, remarks)) :
    ∃ ts head tail post, scan (span.slice script) false = .ok ⟨ts, {}⟩ ∧
      ts = .code (head ++ tail) :: post ∧
      readClass? (head ++ tail) = some (d.className, tail) ∧
      Origins (tag.filter (!·.isEmpty)) (span.slice script) ts
        (upToBrace (.code tail :: post)) d := by
  obtain ⟨a, w, hreads, -⟩ := exists_reads_slice hspan
  obtain ⟨_, _, _, name, _, rest, -, -, -, -, hclass, hbrace⟩ := exists_head_of_locate hspan
  obtain ⟨hconstructor, heritage, hheader, hbase⟩ := describe_facts hdescribe
  rw [classHeader?_of_readClass? hclass hbrace] at hheader
  obtain ⟨rfl, rfl⟩ := Prod.mk.inj (Option.some.inj hheader)
  generalize hts : a ++ [Token.code (w ++ ['}'])] = ts at hreads
  obtain ⟨head, tail, post, rfl, hhead, rfl⟩ := exists_head_token hreads hclass
  refine ⟨_, head, tail, post, scan_eq_ok_iff.2 ⟨.code, hreads, rfl⟩, rfl, hhead, ?_, ?_, ?_⟩
  · obtain ⟨-, found, hfound, htext, -⟩ := describe_eq_ok hdescribe
    obtain ⟨p, hp, hbefore⟩ := findDirective?_eq_some hfound
    obtain ⟨⟨more, hmore⟩, -⟩ := readDirective?_eq_some hp
    obtain ⟨gap, stop, _, -, -, -, -, -, hslashes⟩ := readDirective?_eq_some_iff.1 hp
    have hne : (span.slice script).drop p ≠ [] := by
      rw [hmore, hslashes]
      exact List.cons_ne_nil _ _
    have hlt : p < (span.slice script).length := by
      by_contra hle
      exact hne (List.drop_eq_nil_of_le (by omega))
    have hsplit := hreads.flatMap_text.trans (List.take_append_drop p (span.slice script)).symm
    obtain ⟨t, u, v, hinside⟩ := exists_inside hsplit hne
    refine ⟨_, _, t, u, v, found, hinside, ?_, hp, htext, ?_⟩
    · intro i hi
      rw [List.length_take] at hi
      exact hbefore i (by omega)
    · rw [← htext]
      exact directivePlace_of_inside hreads hinside ⟨more, hmore.symm⟩ ⟨_, hslashes⟩
  · rw [hconstructor]
    exact hasConstructor_iff_of_reads hreads
  · intro hbraces
    have hseparated := hreads.separated
    have htail : Separated (.code tail :: post) := by
      refine ⟨?_, hseparated.2⟩
      intro c c' hc
      refine hseparated.1 c c' ?_
      show (head ++ tail).getLast? = some c
      rw [List.getLast?_append, show tail.getLast? = some c from hc]
      rfl
    have htext : (tail ++ post.flatMap Token.text).takeWhile (fun x => decide (x ≠ '{')) =
        (upToBrace (.code tail :: post)).flatMap Token.text := takeWhile_flatMap_text hbraces
    rw [hbase, htext, hasBaseClass_flatMap_text (separated_upToBrace htail), exists_mem_split]

/-- A body behind other code with a base class, a directive and a constructor of its own. -/
theorem describe_origins_own :
    let script := "let y; class A extends B \x7b // <a-b x />\nconstructor(c) \x7b\x7d \x7d".toList
    let span : Span := ⟨7, 59⟩
    let d : Descriptor := ⟨"a-b".toList, ['A'], [⟨['x'], .plain false⟩], "// <a-b x />".toList,
      true, true⟩
    locate script = .ok span ∧ describe (span.slice script) none = .ok (d, []) ∧
      ∃ ts head tail post, scan (span.slice script) false = .ok ⟨ts, {}⟩ ∧
        ts = .code (head ++ tail) :: post ∧
        readClass? (head ++ tail) = some (d.className, tail) ∧
        Origins none (span.slice script) ts (upToBrace (.code tail :: post)) d := by
  intro script span d
  have hspan : locate script = .ok span := by decide +kernel
  have hdescribe : describe (span.slice script) none = .ok (d, []) := by decide +kernel
  exact ⟨hspan, hdescribe, describe_origins hspan hdescribe⟩

/-- A directive in a string, a constructor in a line comment and a base class in a block comment
count, although the code has none of them and a line comment behind holds a directive. -/
theorem describe_misled :
    let body := ("class A /* extends B */ \x7b\n\ts = \"// <a-b />\"; // constructor()\n".toList ++
      "\t// <a-b x />\n\x7d".toList)
    let front : List Token := [.code "class A ".toList, .blockComment "/* extends B */".toList,
      .code " \x7b\n\ts = ".toList]
    let tokens : List Token := front ++ [.string "\"// <a-b />\"".toList, .code "; ".toList,
      .lineComment "// constructor()".toList, .code "\n\t".toList,
      .lineComment "// <a-b x />".toList, .code "\n\x7d".toList]
    let d : Descriptor := ⟨"a-b".toList, ['A'], [], "// <a-b />".toList, true, true⟩
    locate body = .ok ⟨0, body.length⟩ ∧ scan body false = .ok ⟨tokens, {}⟩ ∧
      describe body none = .ok (d, []) ∧
      findFirst? d.directive body = some (front.flatMap Token.text ++ ['"'],
        body.drop ((front.flatMap Token.text).length + 11)) ∧
      tokens.all (fun t => t.isCode = false ∨ hasConstructor t.text = false) = true ∧
      upToBrace (.code [' '] :: tokens.tail) =
        [.code [' '], .blockComment "/* extends B */".toList, .code [' ']] ∧
      hasBaseClass [' '] = false := by
  decide +kernel

end ElementBundle.Component
