import ElementBundle.Proofs.Component.Declared
import ElementBundle.Proofs.Component.Scaffold
import ElementBundle.Proofs.Markup.Attributes

/-! # Directives that are written and read

A tag and attributes are written as a directive in the body of a class, with any
blanks between them. Reading that body gives them back, whether the tag is asked
for by its name or not, and asking for any other tag finds nothing.
-/

namespace ElementBundle.Component

open ElementBundle.Text ElementBundle.Markup

/-! ## Names -/

/-- A character of one class, and characters of another one behind it. -/
def NameOf (first later : Char → Bool) (name : List Char) : Prop :=
  ∃ c more, name = c :: more ∧ first c = true ∧ ∀ d ∈ more, later d = true

/-- A later character of the name of an attribute. -/
def isDeclaredRest (c : Char) : Bool :=
  isIdentRest c || c == '-'

theorem isDeclaredRest_of_isIdentStart {c : Char} (h : isIdentStart c = true) :
    isDeclaredRest c = true := by
  simp only [isIdentStart, Bool.or_eq_true, beq_iff_eq] at h
  rcases h with (h | rfl) | rfl
  · have hword : isWord c = true := isWord_of_isAlphanum (by rw [Char.isAlphanum, h]; rfl)
    rw [isDeclaredRest, isIdentRest, hword]
    rfl
  · decide
  · decide

theorem isDeclaredRest_of_isIdentRest {c : Char} (h : isIdentRest c = true) :
    isDeclaredRest c = true := by
  rw [isDeclaredRest, h]
  rfl

theorem isDeclaredRest_of_isNameRest {c : Char} (h : isNameRest c = true) :
    isDeclaredRest c = true := by
  simp only [isNameRest, Bool.or_eq_true] at h
  rcases h with h | h <;> simp [isDeclaredRest, isIdentRest, h]

theorem isNameRest_of_isAlpha {c : Char} (h : c.isAlpha = true) : isNameRest c = true := by
  rw [isNameRest, isWord_of_isAlphanum (by rw [Char.isAlphanum, h]; rfl)]
  rfl

theorem NameOf.forall_mem {first later p : Char → Bool} {name : List Char}
    (h : NameOf first later name) (hfirst : ∀ c, first c = true → p c = true)
    (hlater : ∀ c, later c = true → p c = true) : ∀ c ∈ name, p c = true := by
  obtain ⟨c, more, rfl, hc, hmore⟩ := h
  exact List.forall_mem_cons.2 ⟨hfirst c hc, fun d hd => hlater d (hmore d hd)⟩

theorem NameOf.isDeclaredRest {name : List Char} (h : NameOf isIdentStart isDeclaredRest name) :
    ∀ c ∈ name, isDeclaredRest c = true :=
  h.forall_mem (fun _ => isDeclaredRest_of_isIdentStart) fun _ hc => hc

theorem isNameRest_of_mem_tag {tag : List Char} (h : TagName tag) :
    ∀ c ∈ tag, isNameRest c = true :=
  NameOf.forall_mem h (fun _ => isNameRest_of_isAlpha) fun _ hc => hc

/-! ## Printed declarations -/

def Attribute.word (a : Attribute) : List Char :=
  match a.kind with
  | .plain true => a.name ++ ['!']
  | .plain false => a.name
  | .boolean _ => a.name ++ ['?']
  | .classToggle => '.' :: a.name

/-- A name does not start with the mark of a toggle, so only its last character counts. -/
theorem spelled_cons {c : Char} (hc : isIdentStart c = true) (rest : List Char) :
    spelled (c :: rest) =
      if (c :: rest).getLast? = some '?' then ((c :: rest).dropLast, .presence, false)
      else if (c :: rest).getLast? = some '!' then ((c :: rest).dropLast, .attribute, true)
      else (c :: rest, .attribute, false) := by
  unfold spelled
  split
  · rename_i heq
    obtain ⟨rfl, -⟩ := List.cons.inj heq
    exact absurd hc (by decide)
  · rfl

theorem dropEndWhile_of_getLast? {p : Char → Bool} {s : List Char}
    (h : s.getLast?.any p = false) : dropEndWhile p s = s := by
  rcases List.eq_nil_or_concat s with rfl | ⟨init, c, rfl⟩
  · rfl
  · rw [List.concat_eq_append, List.getLast?_concat] at h
    have hc : p c = false := h
    simp [dropEndWhile, hc]

/-- The marks of a word are told from its name, which has none at its ends. -/
theorem wordShape_word_of_name {a : Attribute} (hname : NameOf isIdentStart isDeclaredRest a.name)
    (hkind : a.kind ≠ .boolean true) : wordShape a.word = a := by
  obtain ⟨name, kind⟩ := a
  have hchars := hname.isDeclaredRest
  have hmark : ∀ d, isDeclaredRest d = false → name.getLast? ≠ some d := by
    intro d hd hlast
    rw [hchars d (List.mem_of_getLast? hlast)] at hd
    cases hd
  obtain ⟨c, more, hsplit, hc, -⟩ := hname
  obtain rfl : name = c :: more := hsplit
  match kind, hkind with
  | .plain true, _ =>
      have hspelled := spelled_cons hc (more ++ ['!'])
      rw [← List.cons_append, List.getLast?_concat, List.dropLast_concat] at hspelled
      show wordShape (c :: more ++ ['!']) = _
      rw [wordShape, hspelled]
      rfl
  | .plain false, _ =>
      show wordShape (c :: more) = _
      rw [wordShape, spelled_cons hc, if_neg (hmark '?' (by decide)),
        if_neg (hmark '!' (by decide))]
  | .boolean false, _ =>
      have hspelled := spelled_cons hc (more ++ ['?'])
      rw [← List.cons_append, List.getLast?_concat, List.dropLast_concat] at hspelled
      show wordShape (c :: more ++ ['?']) = _
      rw [wordShape, hspelled]
      rfl
  | .classToggle, _ =>
      have hkeep : (c :: more).getLast?.any (fun d => d == '!' || d == '?') = false := by
        rw [Option.any_eq_false]
        intro d hlast
        have hd := hchars d (List.mem_of_getLast? hlast)
        rw [Bool.or_eq_false_iff, beq_eq_false_iff_ne, beq_eq_false_iff_ne]
        constructor <;> rintro rfl <;> exact absurd hd (by decide)
      show wordShape ('.' :: c :: more) = _
      rw [wordShape, spelled, dropEndWhile_of_getLast? hkeep]

/-- An attribute that a word can declare, with the gap in front of that word. -/
structure Declaration where
  gap : List Char
  declared : Attribute
  gap_ne_nil : gap ≠ []
  isGap_of_mem : ∀ c ∈ gap, isGap c = true
  name : NameOf isIdentStart isDeclaredRest declared.name
  kind : declared.kind ≠ .boolean true

def Declaration.text (e : Declaration) : List Char :=
  e.gap ++ e.declared.word

def printedSpecs (es : List Declaration) : List Char :=
  es.flatMap Declaration.text

/-- The directive of a tag with declarations, and a gap in front of the end mark. -/
def printedDirective (tag : List Char) (es : List Declaration) (last : List Char) : List Char :=
  "// <".toList ++ (tag ++ (printedSpecs es ++ (last ++ "/>".toList)))

/-- A class with a directive and nothing else in it. -/
def printedBody (name directive : List Char) : List Char :=
  classLine name ++ (directive ++ "\n\x7d".toList)

/-- A character between the start and the end mark of a printed directive. -/
def isPrinted (c : Char) : Bool :=
  isDeclaredRest c || isGap c || c == '.' || c == '!' || c == '?'

theorem isPrinted_of_isDeclaredRest {c : Char} (h : isDeclaredRest c = true) :
    isPrinted c = true := by
  rw [isPrinted, h]
  rfl

theorem isPrinted_of_isGap {c : Char} (h : isGap c = true) : isPrinted c = true := by
  simp [isPrinted, h]

theorem isBlank_of_isGap {c : Char} (h : isGap c = true) : isBlank c = true := by
  simp only [isGap, Bool.or_eq_true, beq_iff_eq] at h
  rcases h with rfl | rfl <;> decide

theorem isBlank_eq_false_of_isDeclaredRest {c : Char} (h : isDeclaredRest c = true) :
    isBlank c = false := by
  by_contra hblank
  have hblank : isBlank c = true := by simpa using hblank
  simp only [isDeclaredRest, isIdentRest, isWord_eq_false_of_isBlank hblank, Bool.false_or,
    Bool.or_eq_true, beq_iff_eq] at h
  rcases h with rfl | rfl <;> exact absurd hblank (by decide)

theorem not_mem_of_isPrinted {s : List Char} (h : ∀ c ∈ s, isPrinted c = true) {d : Char}
    (hd : isPrinted d = false) : d ∉ s := by
  intro hmem
  rw [h d hmem] at hd
  cases hd

section Words

variable (e : Declaration)

theorem Declaration.mem_word {c : Char} (hc : c ∈ e.declared.word) :
    isDeclaredRest c = true ∨ c = '.' ∨ c = '!' ∨ c = '?' := by
  have hname := e.name.isDeclaredRest c
  unfold Attribute.word at hc
  split at hc
  · rcases List.mem_append.1 hc with hc | hc
    · exact .inl (hname hc)
    · exact .inr (.inr (.inl (List.mem_singleton.1 hc)))
  · exact .inl (hname hc)
  · rcases List.mem_append.1 hc with hc | hc
    · exact .inl (hname hc)
    · exact .inr (.inr (.inr (List.mem_singleton.1 hc)))
  · rcases List.mem_cons.1 hc with hc | hc
    · exact .inr (.inl hc)
    · exact .inl (hname hc)

theorem Declaration.isBlank_word : ∀ c ∈ e.declared.word, isBlank c = false := by
  intro c hc
  rcases e.mem_word hc with h | rfl | rfl | rfl
  · exact isBlank_eq_false_of_isDeclaredRest h
  all_goals decide

theorem Declaration.isPrinted_text : ∀ c ∈ e.text, isPrinted c = true := by
  intro c hc
  rcases List.mem_append.1 hc with hc | hc
  · exact isPrinted_of_isGap (e.isGap_of_mem c hc)
  · rcases e.mem_word hc with h | rfl | rfl | rfl
    · exact isPrinted_of_isDeclaredRest h
    all_goals decide

theorem Declaration.word_ne_nil : e.declared.word ≠ [] := by
  obtain ⟨c, more, hname, -⟩ := e.name
  unfold Attribute.word
  split <;> simp [hname]

theorem Declaration.wordShape_word : wordShape e.declared.word = e.declared :=
  wordShape_word_of_name e.name e.kind

/-- The hyphens of a name become underscores, and what is left is an identifier. -/
theorem Declaration.isIdentifier_declared : isIdentifier e.declared.identifier = true := by
  obtain ⟨c, more, hname, hc, hmore⟩ := e.name
  have hhyphen : c ≠ '-' := by
    rintro rfl
    exact absurd hc (by decide)
  have hrest : (more.map fun d => if d = '-' then '_' else d).all isIdentRest = true := by
    rw [List.all_map, List.all_eq_true]
    intro d hd
    have hdecl := hmore d hd
    simp only [isDeclaredRest, Bool.or_eq_true, beq_iff_eq] at hdecl
    by_cases h : d = '-'
    · simp only [Function.comp_apply, h, if_true]
      decide
    · simpa [h] using hdecl
  rw [Attribute.identifier, hname, List.map_cons, if_neg hhyphen, isIdentifier, hc, hrest]
  rfl

theorem Declaration.classify_word : classify e.declared.word = (some e.declared, []) := by
  have hname : e.declared.name ≠ [] := by
    obtain ⟨c, more, hname, -⟩ := e.name
    simp [hname]
  unfold classify
  simp [trim_of_forall e.isBlank_word, e.word_ne_nil, e.wordShape_word, hname,
    e.isIdentifier_declared]

end Words

/-! ## Declarations are read back -/

theorem printedSpecs_cons (e : Declaration) (es : List Declaration) :
    printedSpecs (e :: es) = e.gap ++ (e.declared.word ++ printedSpecs es) := by
  rw [printedSpecs, List.flatMap_cons, Declaration.text, List.append_assoc]
  rfl

theorem isPrinted_printedSpecs (es : List Declaration) :
    ∀ c ∈ printedSpecs es, isPrinted c = true := by
  intro c hc
  obtain ⟨e, -, hc⟩ := List.mem_flatMap.1 hc
  exact e.isPrinted_text c hc

theorem head?_printedSpecs (es : List Declaration) :
    (printedSpecs es).head?.all isBlank = true := by
  cases es with
  | nil => rfl
  | cons e es =>
      obtain ⟨b, gap, hgap⟩ := List.exists_cons_of_ne_nil e.gap_ne_nil
      have hb : isGap b = true := e.isGap_of_mem b (by simp [hgap])
      rw [printedSpecs_cons, hgap]
      exact isBlank_of_isGap hb

theorem words_printedSpecs (es : List Declaration) :
    words (printedSpecs es) = es.map (·.declared.word) := by
  induction es with
  | nil => exact words_nil
  | cons e es ih =>
      have hgap : ∀ b ∈ e.gap, isBlank b = true :=
        fun b hb => isBlank_of_isGap (e.isGap_of_mem b hb)
      rw [printedSpecs_cons, words_blanks hgap,
        words_append e.word_ne_nil e.isBlank_word (head?_printedSpecs es), ih, List.map_cons]

theorem declareFrom_words {taken : List (List Char)} {es : List Declaration}
    (hfresh : ∀ e ∈ es, e.declared.name ∉ taken)
    (hdistinct : (es.map (·.declared.name)).Nodup) :
    declareFrom taken (es.map (·.declared.word)) = (es.map (·.declared), []) := by
  induction es generalizing taken with
  | nil => rfl
  | cons e es ih =>
      obtain ⟨he, hfresh⟩ := List.forall_mem_cons.1 hfresh
      obtain ⟨hnew, hdistinct⟩ := List.nodup_cons.1 hdistinct
      have hbehind : ∀ f ∈ es, f.declared.name ∉ e.declared.name :: taken := by
        intro f hf hmem
        rcases List.mem_cons.1 hmem with hsame | hmem
        · exact hnew (List.mem_map.2 ⟨f, hf, hsame⟩)
        · exact hfresh f hf hmem
      have hword : (classify e.declared.word).1 = some e.declared := by rw [e.classify_word]
      rw [List.map_cons, declareFrom_new hword he, ih hbehind hdistinct, e.classify_word]
      rfl

theorem atEndMark_append_eq_false {s : List Char} (hne : ∃ c ∈ s, isBlank c = false)
    (hslash : '/' ∉ s) (rest : List Char) : atEndMark (s ++ rest) = false := by
  induction s with
  | nil =>
      obtain ⟨c, hc, -⟩ := hne
      cases hc
  | cons c s ih =>
      rw [List.mem_cons, not_or] at hslash
      by_cases hc : isBlank c = true
      · obtain ⟨d, hd, hblank⟩ := hne
        rcases List.mem_cons.1 hd with rfl | hd
        · rw [hc] at hblank
          cases hblank
        · have hskip : atEndMark (c :: s ++ rest) = atEndMark (s ++ rest) := by
            simp [atEndMark, hc]
          rw [hskip]
          exact ih ⟨d, hd, hblank⟩ hslash.2
      · rw [atEndMark, List.cons_append, List.dropWhile_cons_of_neg hc, startsWith, dropLeading?,
          if_neg hslash.1]
        rfl

theorem readSpecs?_append {specs last : List Char}
    (hspecs : specs.getLast?.any isBlank = false) (hslash : '/' ∉ specs) (hline : '\n' ∉ specs)
    (hlast : ∀ b ∈ last, isBlank b = true) (rest : List Char) :
    readSpecs? (specs ++ (last ++ '/' :: '>' :: rest)) = some (specs, last ++ ['/', '>']) := by
  induction specs with
  | nil =>
      have htake : (last ++ '/' :: '>' :: rest).takeWhile isBlank = last :=
        takeWhile_append_stop hlast isBlank_slash
      rw [List.nil_append, readSpecs?_of_atEndMark (atEndMark_stop hlast rest), htake]
  | cons c specs ih =>
      obtain ⟨d, hd⟩ := Option.ne_none_iff_exists'.1
        (List.getLast?_eq_none_iff.not.2 (List.cons_ne_nil c specs))
      have hblank : isBlank d = false := by
        rw [hd] at hspecs
        exact hspecs
      have hnot := atEndMark_append_eq_false ⟨d, List.mem_of_getLast? hd, hblank⟩ hslash
        (last ++ '/' :: '>' :: rest)
      rw [List.mem_cons, not_or] at hslash hline
      have htail : specs.getLast?.any isBlank = false := by
        cases specs with
        | nil => rfl
        | cons c' specs => rwa [List.getLast?_cons_cons] at hspecs
      rw [List.cons_append] at hnot ⊢
      rw [readSpecs?_cons hnot (Ne.symm hline.1), ih htail hslash.2 hline.2]
      rfl

theorem getLast?_printedSpecs (es : List Declaration) :
    (printedSpecs es).getLast?.any isBlank = false := by
  induction es with
  | nil => rfl
  | cons e es ih =>
      rw [printedSpecs_cons, List.getLast?_append, List.getLast?_append]
      cases hes : (printedSpecs es).getLast? with
      | some c =>
          rw [hes] at ih
          exact ih
      | none =>
          obtain ⟨d, hd⟩ := Option.ne_none_iff_exists'.1
            (List.getLast?_eq_none_iff.not.2 e.word_ne_nil)
          rw [hd]
          exact e.isBlank_word d (List.mem_of_getLast? hd)

/-! ## Directives are read back -/

section Reading

variable {tag last : List Char} (es : List Declaration)

/-- The tag, the declarations and the last gap hold no character of another kind. -/
theorem not_mem_printed (htag : TagName tag) (hlast : ∀ c ∈ last, isGap c = true) {d : Char}
    (hd : isPrinted d = false) : d ∉ tag ++ (printedSpecs es ++ last) := by
  refine not_mem_of_isPrinted (fun c hc => ?_) hd
  rcases List.mem_append.1 hc with hc | hc
  · exact isPrinted_of_isDeclaredRest
      (isDeclaredRest_of_isNameRest (isNameRest_of_mem_tag htag c hc))
  · rcases List.mem_append.1 hc with hc | hc
    · exact isPrinted_printedSpecs es c hc
    · exact isPrinted_of_isGap (hlast c hc)

theorem endsTagName_printed (hlast : ∀ c ∈ last, isGap c = true) (rest : List Char) :
    endsTagName (printedSpecs es ++ (last ++ '/' :: '>' :: rest)) = true := by
  rw [endsTagName_eq]
  have hhead := head?_printedSpecs es
  cases hes : printedSpecs es with
  | cons c specs =>
      rw [hes] at hhead
      have hc : isBlank c = true := hhead
      simp [hc]
  | nil =>
      cases last with
      | nil => rfl
      | cons c last =>
          have hc : isBlank c = true := isBlank_of_isGap (hlast c List.mem_cons_self)
          simp [hc]

theorem isNameRest_eq_false_of_endsTagName {rest : List Char} (h : endsTagName rest = true) :
    rest.head?.any isNameRest = false := by
  cases rest with
  | nil => rfl
  | cons c rest =>
      have hc : (isBlank c || c == '/') = true := h
      rw [Bool.or_eq_true, beq_iff_eq] at hc
      rcases hc with hc | rfl
      · exact isNameRest_eq_false_of_isBlank hc
      · show isNameRest '/' = false
        decide

theorem readTagName?_append {wanted : Option (List Char)} {rest : List Char} (htag : TagName tag)
    (hwanted : wanted = none ∨ wanted = some tag) (hrest : endsTagName rest = true) :
    readTagName? wanted (tag ++ rest) = some (tag, rest) := by
  rcases hwanted with rfl | rfl
  · obtain ⟨c, more, rfl, hc, hmore⟩ := htag
    have hstop := isNameRest_eq_false_of_endsTagName hrest
    rw [List.cons_append, readTagName?, if_pos hc, takeWhile_append_stop hmore hstop,
      dropWhile_append_stop hmore hstop]
  · rw [readTagName?, dropLeading?_eq_some_iff.2 rfl]
    rfl

theorem eq_of_append_eq {other rest rest' : List Char} (htag : TagName tag)
    (hother : TagName other) (hrest : endsTagName rest = true) (hrest' : endsTagName rest' = true)
    (h : tag ++ rest = other ++ rest') : other = tag := by
  calc
    other = (other ++ rest').takeWhile isNameRest :=
      (takeWhile_append_stop (isNameRest_of_mem_tag hother)
        (isNameRest_eq_false_of_endsTagName hrest')).symm
    _ = (tag ++ rest).takeWhile isNameRest := by rw [h]
    _ = tag := takeWhile_append_stop (isNameRest_of_mem_tag htag)
      (isNameRest_eq_false_of_endsTagName hrest)

theorem printedDirective_append (rest : List Char) :
    printedDirective tag es last ++ rest =
      '/' :: '/' ::
        ([' '] ++ '<' :: (tag ++ (printedSpecs es ++ (last ++ '/' :: '>' :: rest)))) := by
  unfold printedDirective
  simp

theorem readDirective?_printed {wanted : Option (List Char)} (htag : TagName tag)
    (hlast : ∀ c ∈ last, isGap c = true) (hwanted : wanted = none ∨ wanted = some tag)
    (rest : List Char) :
    readDirective? wanted (printedDirective tag es last ++ rest) =
      some ⟨tag, printedSpecs es, printedDirective tag es last⟩ := by
  have hgap : ∀ c ∈ [' '], isGap c = true := List.forall_mem_singleton.2 (by decide)
  have hends := endsTagName_printed es hlast rest
  have hprinted := isPrinted_printedSpecs es
  refine readDirective?_eq_some_iff.2 ⟨[' '], last ++ ['/', '>'], _, hgap,
    printedDirective_append es rest, readTagName?_append htag hwanted hends, hends, ?_, ?_⟩
  · exact readSpecs?_append (getLast?_printedSpecs es) (not_mem_of_isPrinted hprinted (by decide))
      (not_mem_of_isPrinted hprinted (by decide)) (fun b hb => isBlank_of_isGap (hlast b hb)) rest
  · unfold printedDirective
    simp

theorem readDirective?_other {other : List Char} (htag : TagName tag)
    (hlast : ∀ c ∈ last, isGap c = true) (hother : TagName other) (hne : other ≠ tag)
    (rest : List Char) :
    readDirective? (some other) (printedDirective tag es last ++ rest) = none := by
  rw [Option.eq_none_iff_forall_ne_some]
  intro d hd
  obtain ⟨gap, stop, rest', hgap, hs, hname, hends, -⟩ := readDirective?_eq_some_iff.1 hd
  obtain rfl : other = d.tag := by
    obtain ⟨r, -, he⟩ := Option.map_eq_some_iff.1 hname
    exact congrArg Prod.fst he
  rw [printedDirective_append, List.cons.injEq, List.cons.injEq] at hs
  have hdrop : ∀ {gap : List Char}, (∀ c ∈ gap, isGap c = true) → ∀ s,
      (gap ++ '<' :: s).dropWhile isGap = '<' :: s :=
    fun hgap s => dropWhile_append_stop hgap rfl
  have hone : ∀ c ∈ [' '], isGap c = true := List.forall_mem_singleton.2 (by decide)
  have hsame := congrArg (List.dropWhile isGap) hs.2.2
  rw [hdrop hone, hdrop hgap, List.cons.injEq] at hsame
  exact hne (eq_of_append_eq htag hother (endsTagName_printed es hlast rest) hends hsame.2)

theorem findDirective?_slash (wanted : Option (List Char)) {c : Char} (hc : c ≠ '/')
    (s : List Char) :
    findDirective? wanted ('/' :: c :: s) = findDirective? wanted (c :: s) := by
  have hnone : readDirective? wanted ('/' :: c :: s) = none := by
    simp [readDirective?, dropLeading?, Ne.symm hc]
  rw [findDirective?, hnone]

theorem findDirective?_other {other rest : List Char} (htag : TagName tag)
    (hlast : ∀ c ∈ last, isGap c = true) (hother : TagName other) (hne : other ≠ tag)
    (hrest : '/' ∉ rest) :
    findDirective? (some other) (printedDirective tag es last ++ rest) = none := by
  have hread := readDirective?_other es htag hlast hother hne rest
  have hinner : '/' ∉ [' ', '<'] ++ (tag ++ (printedSpecs es ++ last)) := by
    rw [List.mem_append, not_or]
    exact ⟨by decide, not_mem_printed es htag hlast (by decide)⟩
  have hbehind : '/' ∉ '>' :: rest := by simp [hrest]
  have hend : findDirective? (some other) ('>' :: rest) = none := by
    rw [← List.append_nil ('>' :: rest), findDirective?_append hbehind]
    rfl
  have htail : [' '] ++ '<' :: (tag ++ (printedSpecs es ++ (last ++ '/' :: '>' :: rest))) =
      ([' ', '<'] ++ (tag ++ (printedSpecs es ++ last))) ++ '/' :: '>' :: rest := by simp
  rw [printedDirective_append] at hread ⊢
  rw [findDirective?, hread]
  show findDirective? (some other) ('/' :: ' ' :: _) = none
  rw [findDirective?_slash _ (by decide)]
  change findDirective? (some other) ([' '] ++ '<' :: _) = none
  rw [htail, findDirective?_append hinner, findDirective?_slash _ (by decide), hend]

end Reading

/-! ## Bodies are read back -/

section Body

variable {name tag last : List Char} {es : List Declaration}
  (hname : NameOf isIdentStart isIdentRest name) (htag : TagName tag)
  (hlast : ∀ c ∈ last, isGap c = true)

include hname

theorem classHeader?_printedBody (directive : List Char) :
    classHeader? (printedBody name directive) = some (name, [' ']) := by
  obtain ⟨c, more, rfl, hc, hmore⟩ := hname
  have hstart : (c :: more).head?.any isIdentStart = true := hc
  have hclass := readClass?_classLine hstart hmore (directive ++ "\n\x7d".toList)
  rw [printedBody, classHeader?_of_readClass? hclass (by simp)]
  rfl

theorem not_mem_className {d : Char} (hd : isDeclaredRest d = false) : d ∉ name := by
  intro hmem
  have hchars := hname.forall_mem (fun _ => isDeclaredRest_of_isIdentStart)
    (fun _ => isDeclaredRest_of_isIdentRest) d hmem
  rw [hchars] at hd
  cases hd

include htag hlast

/-- There is no parenthesis in the body, so it has no constructor. -/
theorem hasConstructor_printedBody :
    hasConstructor (printedBody name (printedDirective tag es last)) = false := by
  have hline : '(' ∉ classLine name :=
    not_mem_classLine (not_mem_className hname (by decide)) (by decide)
  have hinside := not_mem_printed es htag hlast (show isPrinted '(' = false by decide)
  have hparen : '(' ∉ printedBody name (printedDirective tag es last) := by
    unfold printedBody printedDirective
    simp only [List.mem_append, not_or] at hinside ⊢
    exact ⟨hline, ⟨by decide, hinside.1, hinside.2.1, hinside.2.2, by decide⟩, by decide⟩
  rw [Bool.eq_false_iff]
  intro h
  obtain ⟨a, b, hsplit, -, blanks, rest, -, rfl⟩ := hasConstructor_iff.1 h
  rw [hsplit] at hparen
  simp at hparen

theorem describe_printedBody_found {wanted : Option (List Char)}
    (hdistinct : (es.map (·.declared.name)).Nodup)
    (hwanted : wanted = none ∨ wanted = some tag) :
    describe (printedBody name (printedDirective tag es last)) wanted =
      .ok (⟨tag, name, es.map (·.declared), printedDirective tag es last, false, false⟩, []) := by
  have hslash : '/' ∉ classLine name :=
    not_mem_classLine (not_mem_className hname (by decide)) (by decide)
  have hfilter : wanted.filter (!·.isEmpty) = wanted := by
    obtain ⟨c, more, rfl, -⟩ := htag
    rcases hwanted with rfl | rfl <;> rfl
  have hfind : findDirective? wanted (printedBody name (printedDirective tag es last)) =
      some ⟨tag, printedSpecs es, printedDirective tag es last⟩ := by
    rw [printedBody, findDirective?_append hslash]
    exact findDirective?_of_readDirective? (readDirective?_printed es htag hlast hwanted _)
  have hdeclare : declare (printedSpecs es) = (es.map (·.declared), []) := by
    rw [declare, words_printedSpecs]
    exact declareFrom_words (fun _ _ => List.not_mem_nil) hdistinct
  rw [describe, hfilter]
  simp only [classHeader?_printedBody hname, hfind, hdeclare,
    hasConstructor_printedBody hname htag hlast]
  rfl

theorem describe_printedBody_other {other : List Char} (hother : TagName other)
    (hne : other ≠ tag) :
    describe (printedBody name (printedDirective tag es last)) (some other) =
      .error (.missingDirective other) := by
  have hslash : '/' ∉ classLine name :=
    not_mem_classLine (not_mem_className hname (by decide)) (by decide)
  have hfilter : (some other).filter (!·.isEmpty) = some other := by
    obtain ⟨c, more, rfl, -⟩ := hother
    rfl
  have hfind : findDirective? (some other) (printedBody name (printedDirective tag es last)) =
      none := by
    rw [printedBody, findDirective?_append hslash]
    exact findDirective?_other es htag hlast hother hne (by decide)
  rw [describe, hfilter]
  simp only [classHeader?_printedBody hname, hfind]
  rfl

end Body

/-- What is written as a directive is read back from a body that holds nothing else: the tag, the
name of the class and all attributes in their order, without a remark, and the text of the directive.
The required names are those that are marked so. No other tag has a directive there. -/
theorem describe_printed {name tag last : List Char} {es : List Declaration}
    (hname : NameOf isIdentStart isIdentRest name) (htag : TagName tag)
    (hdistinct : (es.map (·.declared.name)).Nodup) (hlast : ∀ c ∈ last, isGap c = true) :
    let directive := printedDirective tag es last
    let body := printedBody name directive
    let d : Descriptor := { tag, className := name, attributes := es.map (·.declared), directive }
    describe body (some tag) = .ok (d, []) ∧ describe body none = .ok (d, []) ∧
      d.required =
        (es.filter fun e => e.declared.kind = .plain true).map (·.declared.name) ∧
      ∀ other, TagName other → other ≠ tag →
        describe body (some other) = .error (.missingDirective other) := by
  intro directive body d
  refine ⟨describe_printedBody_found hname htag hlast hdistinct (.inr rfl),
    describe_printedBody_found hname htag hlast hdistinct (.inl rfl), ?_,
    fun other hother hne => describe_printedBody_other hname htag hlast hother hne⟩
  have hrequired : ∀ e : Declaration,
      e.declared.required = decide (e.declared.kind = .plain true) := by
    intro e
    have hkind := e.kind
    unfold Attribute.required
    split <;> simp_all
  show ((es.map (·.declared)).filter Attribute.required).map Attribute.name = _
  rw [List.filter_map, List.map_map]
  have hsame : (Attribute.required ∘ fun e : Declaration => e.declared) =
      fun e => decide (e.declared.kind = .plain true) := funext hrequired
  rw [hsame]
  rfl

/-- A name that ends with a hyphen, tabs and blanks, the keyword inside the name of the class, and
tags that start the written one or go on behind it. -/
theorem describe_printed_hyphens :
    let directive := "// <a-b\tmax-size!  data-open? \t.is-on x-/>".toList
    let body := "class $class \x7b\n\t".toList ++ directive ++ "\n\x7d".toList
    let as : List Attribute := [⟨"max-size".toList, .plain true⟩,
      ⟨"data-open".toList, .boolean false⟩, ⟨"is-on".toList, .classToggle⟩,
      ⟨"x-".toList, .plain false⟩]
    let d : Descriptor := ⟨"a-b".toList, "$class".toList, as, directive, false, false⟩
    describe body (some "a-b".toList) = .ok (d, []) ∧ describe body none = .ok (d, []) ∧
      d.required = ["max-size".toList] ∧
      describe body (some "a".toList) = .error (.missingDirective "a".toList) ∧
      describe body (some "a-bc".toList) = .error (.missingDirective "a-bc".toList) := by
  intro directive body as d
  let es : List Declaration := [
    ⟨['\t'], ⟨"max-size".toList, .plain true⟩, by decide, List.all_eq_true.1 (by decide),
      ⟨'m', "ax-size".toList, by decide, by decide, List.all_eq_true.1 (by decide)⟩, by decide⟩,
    ⟨[' ', ' '], ⟨"data-open".toList, .boolean false⟩, by decide, List.all_eq_true.1 (by decide),
      ⟨'d', "ata-open".toList, by decide, by decide, List.all_eq_true.1 (by decide)⟩, by decide⟩,
    ⟨[' ', '\t'], ⟨"is-on".toList, .classToggle⟩, by decide, List.all_eq_true.1 (by decide),
      ⟨'i', "s-on".toList, by decide, by decide, List.all_eq_true.1 (by decide)⟩, by decide⟩,
    ⟨[' '], ⟨"x-".toList, .plain false⟩, by decide, List.all_eq_true.1 (by decide),
      ⟨'x', "-".toList, by decide, by decide, List.all_eq_true.1 (by decide)⟩, by decide⟩]
  have hname : NameOf isIdentStart isIdentRest "$class".toList :=
    ⟨'$', "class".toList, by decide, by decide, List.all_eq_true.1 (by decide)⟩
  have htag : TagName "a-b".toList :=
    ⟨'a', "-b".toList, by decide, by decide, List.all_eq_true.1 (by decide)⟩
  have hshort : TagName "a".toList := ⟨'a', [], by decide, by decide, by simp⟩
  have hlong : TagName "a-bc".toList :=
    ⟨'a', "-bc".toList, by decide, by decide, List.all_eq_true.1 (by decide)⟩
  obtain ⟨hfound, hany, hrequired, hother⟩ :=
    @describe_printed "$class".toList "a-b".toList [] es hname htag (by decide +kernel) (by simp)
  have hdirective : printedDirective "a-b".toList es [] = directive := by decide +kernel
  have hbody : printedBody "$class".toList directive = body := by decide +kernel
  rw [hdirective] at hfound hany hrequired hother
  rw [hbody] at hfound hany hother
  exact ⟨hfound, hany, hrequired, hother _ hshort (by decide), hother _ hlong (by decide)⟩

end ElementBundle.Component
