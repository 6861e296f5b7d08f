import ElementBundle.Proofs.Component.Members
import ElementBundle.Proofs.Component.Name
import ElementBundle.Proofs.Component.Origin
import Mathlib.Data.List.Basic

/-! # Scaffolds compile

The source of a new component compiles as it is, whatever its tag. The tag
stands in a comment, and the class name that is made from it is one word, so
neither is taken for a keyword, a mark or a brace.
-/

namespace ElementBundle.Component

open ElementBundle.Text ElementBundle.Source ElementBundle.Markup

variable {name tag : List Char}

/-! ## Names -/

theorem Pascal.isAlphanum (h : Pascal name) : ∀ c ∈ name, c.isAlphanum = true := by
  obtain ⟨c, rest, rfl, hc, hrest⟩ := h
  refine List.forall_mem_cons.2 ⟨?_, hrest⟩
  show (c.isUpper || c.isLower || c.isDigit) = true
  rw [hc]
  rfl

theorem Pascal.isTame (h : Pascal name) : name.all isTame = true :=
  List.all_eq_true.2 fun c hc => isTame_of_class (h.isAlphanum c hc) (by decide)

theorem Pascal.not_mem (h : Pascal name) {c : Char} (hc : c.isAlphanum = false) : c ∉ name := by
  intro hm
  rw [h.isAlphanum c hm] at hc
  cases hc

theorem Kebab.not_mem (h : Kebab tag) {c : Char} (hc : isTagWord c = false) (hne : c ≠ '-') :
    c ∉ tag := by
  intro hm
  rcases h.chars c hm with hword | hhyphen
  · rw [hword] at hc
    cases hc
  · exact hne hhyphen

/-! ## The texts of a scaffold -/

def classLine (name : List Char) : List Char :=
  "class ".toList ++ name ++ " \x7b\n\t".toList

def bareDirective (tag : List Char) : List Char :=
  "// <".toList ++ tag ++ " />".toList

/-- What stands behind the directive, with markup. -/
def createdMarkup : List Char :=
  "\n\n\tcreated() \x7b\n\t\t<This></This>\n\t\x7d\n\x7d\n".toList

/-- What stands behind the directive, without markup, up to the literal. -/
def createdRun : List Char :=
  "\n\n\tcreated() \x7b\n\t\tthis.innerHTML = ".toList

/-- What stands behind the directive, without markup, up to the last brace. -/
def createdScript : List Char :=
  createdRun ++ "``\n\t\x7d\n".toList

def createdBody (name tag : List Char) : List Char :=
  classLine name ++ (bareDirective tag ++ (createdScript ++ ['}']))

/-- The text of a compiled unit between its class name and its tag. -/
def createdEdits : List Char :=
  " extends ComposcriptComponent \x7b\n".toList ++
    "\tconstructor(attr) \x7b super(attr); \x7d\n\n".toList ++
    "\tcreated() \x7b\n\t\tthis.innerHTML = ``\n\t\x7d\n\n".toList ++
    "\tget requiredAttributes() \x7b\n\t\treturn [];\n\t\x7d\n\x7d\n\n".toList ++
    "customElements.define('".toList

def createdUnit (name tag : List Char) : List Char :=
  "class ".toList ++ name ++ createdEdits ++ tag ++ "', ".toList ++ name ++ ");\n".toList

theorem scaffold_eq (tag : List Char) :
    scaffold tag = classLine (className tag) ++ (bareDirective tag ++ createdMarkup) := by
  have hbrace : " \x7b\n\t// <".toList = " \x7b\n\t".toList ++ "// <".toList := by decide
  have hstop : " />\n\n\tcreated() \x7b\n\t\t<This></This>\n\t\x7d\n\x7d\n".toList =
      " />".toList ++ createdMarkup := by decide +kernel
  unfold scaffold classLine bareDirective
  rw [hbrace, hstop]
  generalize createdMarkup = rest
  generalize "class ".toList = word
  simp only [List.append_assoc]

theorem not_mem_classLine {c : Char} (hname : c ∉ name)
    (hline : c ∉ "class ".toList ++ " \x7b\n\t".toList) : c ∉ classLine name := by
  intro hm
  unfold classLine at hm
  simp only [List.mem_append] at hm
  rcases hm with (hm | hm) | hm
  · exact hline (List.mem_append_left _ hm)
  · exact hname hm
  · exact hline (List.mem_append_right _ hm)

theorem isMuted_classLine (hname : Pascal name) : (classLine name).all isMuted = true := by
  unfold classLine
  rw [List.all_append, List.all_append, isMuted_of_isTame hname.isTame]
  decide

/-! ## Scans -/

/-- With and without markup the directive is a comment behind one run of code. -/
theorem reads_classLine {markup : Bool} {rest : List Char} {ts : List Token} {final : Mode}
    (hname : Pascal name) (htag : Kebab tag) (hrest : rest.head? = some '\n')
    (h : Reads markup .code rest ts final) :
    Reads markup .code (classLine name ++ (bareDirective tag ++ rest))
      (.code (classLine name) :: .lineComment (bareDirective tag) :: ts) final := by
  obtain ⟨rest, rfl⟩ := List.head?_eq_some_iff.1 hrest
  have hcomment : Stands markup (.lineComment (bareDirective tag)) .code ('\n' :: rest) := by
    have honeLine : '\n' ∉ " <".toList ++ tag ++ " />".toList := by
      simp only [List.mem_append, not_or]
      exact ⟨⟨by decide, htag.not_mem (by decide) (by decide)⟩, by decide⟩
    exact @Stands.lineComment markup _ ('\n' :: rest) honeLine (.inr rfl)
  have hcolon : colonAfter false (classLine name) = false := by
    unfold classLine
    rw [colonAfter_append]
    rfl
  have hcode : Stands markup (.code (classLine name)) .code (bareDirective tag ++ '\n' :: rest) := by
    apply Stands.code
    · unfold classLine
      simp
    · apply unmarked_of_plain (muted_of_all (isMuted_classLine hname)).plain
      intro _
      exact not_mem_classLine (hname.not_mem (by decide)) (by decide)
    · rw [hcolon]
      show (opener? markup false '/' ('/' :: _)).isSome = true
      rw [opener?_slashes]
      rfl
  exact .cons hcode (.cons hcomment h)

def createdTokens : List Token :=
  [.code "\n\n\tcreated() \x7b\n\t\t".toList,
    .markup "<This></This>".toList
      ⟨"This".toList, [.text "<This>".toList], [], [.text "</This>".toList]⟩,
    .code "\n\t\x7d\n\x7d\n".toList]

theorem scan_scaffold (h : Kebab tag) :
    scan (scaffold tag) = .ok ⟨.code (classLine (className tag)) ::
      .lineComment (bareDirective tag) :: createdTokens, {}⟩ := by
  have hmarkup : scan createdMarkup = .ok ⟨createdTokens, {}⟩ := by decide +kernel
  obtain ⟨final, hreads, hfinal⟩ := scan_eq_ok_iff.1 hmarkup
  rw [scaffold_eq]
  exact scan_eq_ok_iff.2 ⟨final, reads_classLine h.className h (by decide) hreads, hfinal⟩

theorem tokens_scaffold (name tag : List Char) :
    ({} : Renderer).tokens (.code (classLine name) :: .lineComment (bareDirective tag) ::
      createdTokens) = createdBody name tag ++ ['\n'] := by
  have hcreated : ({} : Renderer).tokens createdTokens = createdScript ++ ['}'] ++ ['\n'] := by
    decide +kernel
  rw [Renderer.tokens, List.flatMap_cons, List.flatMap_cons, ← Renderer.tokens, hcreated,
    createdBody]
  simp only [Renderer.token, Token.text, List.append_assoc]

/-! ## The body -/

theorem readClass?_classLine (hstart : name.head?.any isIdentStart = true)
    (hname : ∀ d ∈ name.tail, isIdentRest d = true) (rest : List Char) :
    readClass? (classLine name ++ rest) = some (name, " \x7b\n\t".toList ++ rest) := by
  have hblank : ∀ b ∈ [' '], isBlank b = true := List.forall_mem_singleton.2 (by decide)
  refine readClass?_eq_some_iff.2 ⟨[' '], by decide, hblank, hstart, hname, rfl, ?_⟩
  unfold classLine
  simp [classWord]

theorem Pascal.readClass? (hname : Pascal name) (rest : List Char) :
    readClass? (classLine name ++ rest) = some (name, " \x7b\n\t".toList ++ rest) := by
  obtain ⟨c, tail, rfl, hc, htail⟩ := hname
  refine readClass?_classLine ?_ ?_ rest
  · show (c.isUpper || c.isLower || c == '_' || c == '$') = true
    rw [hc]
    rfl
  · intro d hd
    rw [isIdentRest, isWord_of_isAlphanum (htail d hd)]
    rfl

/-- The tokens of the body in front of the run of code that closes it. -/
def bodyTokens (name tag : List Char) : List Token :=
  [.code (classLine name), .lineComment (bareDirective tag), .code createdRun, .string "``".toList]

theorem createdBody_eq_tokens (name tag : List Char) :
    createdBody name tag =
      (bodyTokens name tag).flatMap Token.text ++ "\n\t\x7d\n".toList ++ ['}'] := by
  simp [createdBody, createdScript, bodyTokens, Token.text]

/-- The class opens one brace, and its method opens and closes another. -/
theorem depthAfter?_bodyTokens (hname : Pascal name) (tag : List Char) :
    depthAfter? 0 (codeText (bodyTokens name tag) ++ "\n\t\x7d\n".toList) = some 1 := by
  have hcode : codeText (bodyTokens name tag) = classLine name ++ createdRun := rfl
  have hword : depthAfter? 0 "class ".toList = some 0 := by decide
  have hline : depthAfter? 0 (classLine name) = some 1 := by
    unfold classLine
    rw [depthAfter?_append, depthAfter?_append, hword, Option.bind_some,
      depthAfter?_of_isTame hname.isTame]
    decide
  rw [hcode, List.append_assoc, depthAfter?_append, hline]
  decide

theorem locate_createdBody (hname : Pascal name) (htag : Kebab tag) :
    locate (createdBody name tag ++ ['\n']) = .ok ⟨0, (createdBody name tag).length⟩ := by
  have hscript : scan (createdScript ++ ['}', '\n']) false =
      .ok ⟨[.code createdRun, .string "``".toList, .code "\n\t\x7d\n\x7d\n".toList], {}⟩ := by
    decide +kernel
  obtain ⟨final, hscanned, -⟩ := scan_eq_ok_iff.1 hscript
  have htext : classLine name ++ (bareDirective tag ++ (createdScript ++ ['}', '\n'])) =
      createdBody name tag ++ ['\n'] := by simp [createdBody]
  have hreads := reads_classLine hname htag (by decide) hscanned
  rw [htext] at hreads
  have hstart : start? (createdBody name tag ++ ['\n']) = some 0 := by
    have hclass := hname.readClass? []
    rw [List.append_nil] at hclass
    rw [start?_eq_classFrom? hreads, classFrom?_code,
      findClass?_of_readClass? (by rw [hclass]; rfl)]
    rfl
  refine locate_eq_ok_iff_reads.2 ⟨hstart, bodyTokens name tag, "\n\t\x7d\n".toList, ['\n'], [],
    final, hreads, depthAfter?_bodyTokens hname tag, ?_⟩
  rw [createdBody_eq_tokens, List.length_append, Nat.zero_add]
  rfl

/-! ## The description -/

theorem readDirective?_bareDirective (tag rest : List Char) :
    readDirective? (some tag) (bareDirective tag ++ rest) =
      some ⟨tag, [], bareDirective tag⟩ := by
  have hgap : ∀ c ∈ [' '], isGap c = true := List.forall_mem_singleton.2 (by decide)
  refine readDirective?_eq_some_iff.2 ⟨[' '], " />".toList, " />".toList ++ rest, hgap, ?_, ?_,
    rfl, rfl, rfl⟩
  · unfold bareDirective
    simp
  · rw [readTagName?, dropLeading?_eq_some_iff.2 rfl]
    rfl

theorem createdBody_eq_call (name tag : List Char) :
    createdBody name tag = (classLine name ++ bareDirective tag ++ "\n\n\tcreated".toList) ++
      '(' :: ") \x7b\n\t\tthis.innerHTML = ``\n\t\x7d\n\x7d".toList := by
  have hscript : createdScript ++ ['}'] = "\n\n\tcreated".toList ++
      '(' :: ") \x7b\n\t\tthis.innerHTML = ``\n\t\x7d\n\x7d".toList := by decide +kernel
  rw [createdBody, hscript]
  simp only [List.append_assoc]

/-- There is one parenthesis to open, and the word in front of it is another one. -/
theorem hasConstructor_createdBody (hname : Pascal name) (htag : Kebab tag) :
    hasConstructor (createdBody name tag) = false := by
  rw [Bool.eq_false_iff]
  intro h
  obtain ⟨a, b, hsplit, -, blanks, rest, hblank, rfl⟩ := hasConstructor_iff.1 h
  have hsame : createdBody name tag = (a ++ "constructor".toList ++ blanks) ++ '(' :: rest := by
    rw [hsplit]
    simp only [List.append_assoc]
  have hfront : '(' ∉ classLine name ++ bareDirective tag ++ "\n\n\tcreated".toList := by
    unfold bareDirective
    simp only [List.mem_append, not_or]
    exact ⟨⟨not_mem_classLine (hname.not_mem (by decide)) (by decide), ⟨by decide,
      htag.not_mem (by decide) (by decide)⟩, by decide⟩, by decide⟩
  rw [createdBody_eq_call] at hsame
  obtain ⟨hbefore, -⟩ := (List.append_cons_inj_of_notMem hfront (by decide)).1 hsame
  have hlast : (a ++ "constructor".toList ++ blanks).getLast? = some 'd' := by
    rw [← hbefore, getLast?_append_of_ne_nil (by decide)]
    decide
  rcases List.eq_nil_or_concat blanks with rfl | ⟨init, blank, rfl⟩
  · rw [List.append_nil, getLast?_append_of_ne_nil (by decide)] at hlast
    exact absurd hlast (by decide)
  · rw [List.concat_eq_append, ← List.append_assoc, List.getLast?_concat] at hlast
    obtain rfl := Option.some.inj hlast
    exact absurd (hblank 'd' (by simp)) (by decide)

/-- What is known of a component without attributes. -/
def described (name tag : List Char) : Descriptor :=
  { tag, className := name, directive := bareDirective tag }

theorem describe_createdBody (hname : Pascal name) (htag : Kebab tag) :
    describe (createdBody name tag) (some tag) = .ok (described name tag, []) := by
  have hheader : classHeader? (createdBody name tag) = some (name, [' ']) := by
    have hclass := hname.readClass? (bareDirective tag ++ (createdScript ++ ['}']))
    rw [createdBody, classHeader?_of_readClass? hclass (by simp)]
    rfl
  have hslash : '/' ∉ classLine name := not_mem_classLine (hname.not_mem (by decide)) (by decide)
  have hdirective : findDirective? (some tag) (createdBody name tag) =
      some ⟨tag, [], bareDirective tag⟩ := by
    rw [createdBody, findDirective?_append hslash]
    exact findDirective?_of_readDirective? (readDirective?_bareDirective tag _)
  have hfilter : (some tag).filter (!·.isEmpty) = some tag := by
    simp [htag.ne_nil]
  rw [describe, hfilter]
  simp only [hheader, hdirective, hasConstructor_createdBody hname htag]
  rfl

/-! ## The unit -/

theorem edits_described (name tag : List Char) :
    (described name tag).extension ++ " \x7b\n\t".toList ++ (described name tag).construction ++
      createdScript ++ (described name tag).membersText ++ ['}'] ++
      "\n\ncustomElements.define('".toList = createdEdits := by
  show (described [] []).extension ++ " \x7b\n\t".toList ++ (described [] []).construction ++
      createdScript ++ (described [] []).membersText ++ ['}'] ++
      "\n\ncustomElements.define('".toList = createdEdits
  decide +kernel

theorem generate_createdBody (hname : Pascal name) (tag : List Char) :
    generate (described name tag) (createdBody name tag) ++ ['\n'] = createdUnit name tag := by
  have hbody : createdBody name tag = ("class ".toList ++ name) ++
      (" \x7b\n\t".toList ++ bareDirective tag ++ (createdScript ++ ['}'])) := by
    unfold createdBody classLine
    simp only [List.append_assoc]
  have hclass : readClass? (createdBody name tag) =
      some (name, " \x7b\n\t".toList ++ bareDirective tag ++ (createdScript ++ ['}'])) := by
    rw [createdBody, hname.readClass?, List.append_assoc]
  have hfirst : findFirst? (bareDirective tag) (createdBody name tag) =
      some (classLine name ++ [], createdScript ++ ['}']) := by
    have hslash : '/' ∉ classLine name := not_mem_classLine (hname.not_mem (by decide)) (by decide)
    exact findFirst?_skip rfl hslash (findFirst?_self _ _)
  rw [List.append_nil] at hfirst
  have hregistration : (described name tag).registration =
      "\n\ncustomElements.define('".toList ++ tag ++ "', ".toList ++ name ++ ");".toList := rfl
  have hstop : ");".toList ++ ['\n'] = ");\n".toList := by decide
  rw [generate_eq (d := described name tag) hbody hclass hfirst rfl, hregistration]
  unfold createdUnit
  rw [← edits_described name tag, ← hstop]
  simp only [List.append_assoc]

/-- The scaffold of every tag compiles: it has one block, its description has the tag and the class
name and nothing else, and the unit is the scaffold with the edits of a component without attributes
and with its block rendered. -/
theorem compile_scaffold (h : Kebab tag) :
    isTag tag = true ∧ Pascal (className tag) ∧
      ∃ c, compile {} (scaffold tag) (some tag) = .ok c ∧ markupBlocks c.tokens = 1 ∧
        c.descriptor.tag = tag ∧ c.descriptor.className = className tag ∧
        c.descriptor.attributes = [] ∧ c.descriptor.hasConstructor = false ∧
        c.descriptor.hasBaseClass = false ∧ c.remarks = [] ∧
        c.output = createdUnit (className tag) tag := by
  have hname := h.className
  have hslice : Span.slice ⟨0, (createdBody (className tag) tag).length⟩
      (createdBody (className tag) tag ++ ['\n']) = createdBody (className tag) tag := by
    rw [Span.slice, List.take_left, List.drop_zero]
  have hcompile : compile {} (scaffold tag) (some tag) = .ok
      { tokens := .code (classLine (className tag)) :: .lineComment (bareDirective tag) ::
          createdTokens
        script := createdBody (className tag) tag ++ ['\n']
        span := ⟨0, (createdBody (className tag) tag).length⟩
        descriptor := described (className tag) tag
        remarks := []
        output := createdUnit (className tag) tag } := by
    unfold compile assemble
    simp only [scan_scaffold h, tokens_scaffold, locate_createdBody hname h, hslice,
      describe_createdBody hname h, List.take_zero, List.nil_append, List.drop_left,
      generate_createdBody hname]
  exact ⟨isTag_iff.2 (.inl h), hname, _, hcompile, rfl, rfl, rfl, rfl, rfl, rfl, rfl, rfl⟩

/-- A tag of keywords, with two hyphens in a row and a digit. -/
theorem compile_scaffold_keywords :
    let tag := "class--extends-2constructor".toList
    Kebab tag ∧ className tag = "ClassExtends2constructor".toList ∧
      ∃ c, compile {} (scaffold tag) (some tag) = .ok c ∧ markupBlocks c.tokens = 1 ∧
        c.descriptor.hasConstructor = false ∧ c.descriptor.hasBaseClass = false ∧
        c.output = createdUnit "ClassExtends2constructor".toList tag := by
  intro tag
  have h : Kebab tag := isKebab_iff.1 (by decide)
  have hname : className tag = "ClassExtends2constructor".toList := by decide +kernel
  obtain ⟨-, -, c, hc, hblocks, -, -, -, hconstructor, hbase, -, hout⟩ := compile_scaffold h
  rw [hname] at hout
  exact ⟨h, hname, c, hc, hblocks, hconstructor, hbase, hout⟩

end ElementBundle.Component
