import ElementBundle.Component.Compile
import ElementBundle.Proofs.Component.Body
import ElementBundle.Proofs.Component.Directive

/-! # Compiling edits a body in four places

The generator finds each place again by a search in a text that it has edited
before. The searches hit the places that the parser found: the end of the class
head, the first directive and the last brace. All else stays as it is.
-/

namespace ElementBundle.Component

open ElementBundle.Text ElementBundle.Source ElementBundle.Markup

/-! ## The class head -/

theorem readNamed?_blanks {blanks name rest : List Char} (hne : blanks ≠ [])
    (hblank : ∀ b ∈ blanks, isBlank b = true) (hstart : name.head?.any isIdentStart = true)
    (hstop : rest.head?.any isIdentRest = false) :
    readNamed? name (blanks ++ (name ++ rest)) = some (blanks ++ name, rest) := by
  have hname : readNamed? name (name ++ rest) = none := by
    cases name with
    | nil => cases hstart
    | cons c name =>
        have hc : isBlank c = false := isBlank_eq_false_of_isIdentStart hstart
        rw [List.cons_append, readNamed?, if_neg (by rw [hc]; exact Bool.false_ne_true)]
  induction blanks with
  | nil => exact absurd rfl hne
  | cons b blanks ih =>
      have hb : isBlank b = true := hblank b List.mem_cons_self
      rw [List.cons_append, readNamed?, if_pos hb]
      cases blanks with
      | nil =>
          have hlead : dropLeading? name (name ++ rest) = some rest :=
            dropLeading?_eq_some_iff.2 rfl
          simp only [List.nil_append, hname, hlead, hstop]
          rfl
      | cons b' blanks =>
          rw [ih (List.cons_ne_nil _ _) fun x hx => hblank x (List.mem_cons_of_mem b hx)]
          rfl

theorem slash_not_mem_of_readClass? {head name rest : List Char}
    (h : readClass? (head ++ rest) = some (name, rest)) : '/' ∉ head := by
  obtain ⟨blanks, -, hblank, hstart, hident, -, hs⟩ := readClass?_eq_some h
  rw [List.append_cancel_right hs]
  simp only [List.mem_append, not_or]
  refine ⟨⟨by decide, fun hm => absurd (hblank _ hm) (by decide)⟩, fun hm => ?_⟩
  cases name with
  | nil => cases hm
  | cons c name =>
      rcases List.mem_cons.1 hm with rfl | hm
      · have hslash : isIdentStart '/' = true := hstart
        exact absurd hslash (by decide)
      · exact absurd (hident _ hm) (by decide)

/-- The declaration behind which text is put is the class at the front. -/
theorem insertAfterClass_of_readClass? {head name rest : List Char}
    (h : readClass? (head ++ rest) = some (name, rest)) (insertion : List Char) :
    insertAfterClass name insertion none (head ++ rest) = head ++ insertion ++ rest := by
  obtain ⟨blanks, hne, hblank, hstart, -, hstop, hs⟩ := readClass?_eq_some h
  obtain rfl : head = classWord ++ blanks ++ name := List.append_cancel_right hs
  have hcons : classWord ++ blanks ++ name ++ rest =
      'c' :: ('l' :: 'a' :: 's' :: 's' :: (blanks ++ (name ++ rest))) := by simp [classWord]
  have hlead : dropLeading? ['c', 'l', 'a', 's', 's']
      ('c' :: ('l' :: 'a' :: 's' :: 's' :: (blanks ++ (name ++ rest)))) =
        some (blanks ++ (name ++ rest)) := dropLeading?_eq_some_iff.2 rfl
  rw [hcons, insertAfterClass]
  simp only [atBoundary, hlead, Option.bind_some, readNamed?_blanks hne hblank hstart hstop]
  simp [classWord]

/-- The header of a body that starts with a class is the head of that class. -/
theorem readClass?_of_classHeader? {body name heritage : List Char}
    (hclass : (readClass? body).isSome = true) (h : classHeader? body = some (name, heritage)) :
    ∃ rest, readClass? body = some (name, rest) := by
  have hfind : findClass? none body = some 0 := by
    cases body with
    | nil => cases hclass
    | cons c body => rw [findClass?, if_pos (by rw [hclass]; rfl)]
  unfold classHeader? at h
  rw [hfind] at h
  simp only [List.drop_zero] at h
  split at h
  · cases h
  · rename_i name' rest hread
    split at h
    · cases h
      exact ⟨rest, hread⟩
    · cases h

/-! ## The last brace -/

theorem trimEnd_of_getLast? {s : List Char} {c : Char} (h : s.getLast? = some c)
    (hc : isBlank c = false) : trimEnd s = s := by
  obtain ⟨u, rfl⟩ := List.getLast?_eq_some_iff.1 h
  simp [trimEnd, dropEndWhile, hc]

/-! ## The whole edit -/

/-- The base class that a component without one gets. -/
def Descriptor.extension (d : Descriptor) : List Char :=
  if d.hasBaseClass then [] else " extends ComposcriptComponent".toList

theorem extends_baseClass :
    " extends ".toList ++ baseClass = " extends ComposcriptComponent".toList := by decide

/-- The constructor that a component without one gets. -/
def Descriptor.construction (d : Descriptor) : List Char :=
  if d.hasConstructor then [] else defaultConstructor

def Descriptor.registration (d : Descriptor) : List Char :=
  "\n\ncustomElements.define('".toList ++ d.tag ++ "', ".toList ++ d.className ++ ");".toList

theorem brace_registration (s : List Char) (d : Descriptor) :
    s ++ "\x7d\n\ncustomElements.define('".toList ++ d.tag ++ "', ".toList ++ d.className ++
      ");".toList = s ++ ['}'] ++ d.registration := by
  have hbrace : "\x7d\n\ncustomElements.define('".toList =
      '}' :: "\n\ncustomElements.define('".toList := by decide
  unfold Descriptor.registration
  generalize "', ".toList = separator
  generalize ");".toList = stop
  rw [hbrace]
  generalize "\n\ncustomElements.define('".toList = start
  simp

/-- A generated unit is the body with four edits: behind the class head, at the directive, before
the last brace and behind it. -/
theorem generate_eq {d : Descriptor} {body head mid post : List Char}
    (hbody : body = head ++ (mid ++ d.directive ++ (post ++ ['}'])))
    (hhead : readClass? body = some (d.className, mid ++ d.directive ++ (post ++ ['}'])))
    (hfirst : findFirst? d.directive body = some (head ++ mid, post ++ ['}']))
    (hslash : d.directive.head? = some '/') :
    generate d body = head ++ d.extension ++ mid ++ d.construction ++ post ++ d.membersText ++
      ['}'] ++ d.registration := by
  subst hbody
  have hnoSlash := slash_not_mem_of_readClass? hhead
  have hinsert := insertAfterClass_of_readClass? hhead (" extends ".toList ++ baseClass)
  have hextended : (if d.hasBaseClass then head ++ (mid ++ d.directive ++ (post ++ ['}']))
      else insertAfterClass d.className (" extends ".toList ++ baseClass) none
        (head ++ (mid ++ d.directive ++ (post ++ ['}'])))) =
      head ++ d.extension ++ (mid ++ d.directive ++ (post ++ ['}'])) := by
    rw [Descriptor.extension]
    split
    · rw [List.append_nil]
    · rw [hinsert, extends_baseClass]
  have hmid : findFirst? d.directive (mid ++ d.directive ++ (post ++ ['}'])) =
      some (mid, post ++ ['}']) := by
    obtain ⟨-, hmin⟩ := findFirst?_eq_some_iff.1 hfirst
    refine findFirst?_eq_some_iff.2 ⟨rfl, fun b r hb => ?_⟩
    have hle := hmin (head ++ b) r (by rw [hb]; simp)
    simp only [List.length_append] at hle
    omega
  have hfound : findFirst? d.directive
      (head ++ d.extension ++ (mid ++ d.directive ++ (post ++ ['}']))) =
        some (head ++ d.extension ++ mid, post ++ ['}']) := by
    refine findFirst?_skip hslash ?_ hmid
    rw [List.mem_append, not_or]
    refine ⟨hnoSlash, ?_⟩
    rw [Descriptor.extension]
    split <;> decide
  have hreplaced : replaceFirst d.directive d.construction
      (head ++ d.extension ++ (mid ++ d.directive ++ (post ++ ['}']))) =
        (head ++ d.extension ++ mid ++ d.construction ++ post) ++ ['}'] := by
    rw [replaceFirst, hfound]
    simp
  have htrim := trimEnd_of_getLast?
    (List.getLast?_concat (l := head ++ d.extension ++ mid ++ d.construction ++ post) (a := '}'))
    (by decide)
  have hgenerate : generate d (head ++ (mid ++ d.directive ++ (post ++ ['}']))) =
      (trimEnd (replaceFirst d.directive d.construction
        (head ++ d.extension ++ (mid ++ d.directive ++ (post ++ ['}']))))).dropLast ++
        d.membersText ++ "\x7d\n\ncustomElements.define('".toList ++ d.tag ++ "', ".toList ++
        d.className ++ ");".toList := by
    rw [← hextended]
    rfl
  rw [hgenerate, hreplaced, htrim, List.dropLast_concat]
  exact brace_registration _ d

theorem compile_eq_ok {renderer : Renderer} {source : List Char} {tag : Option (List Char)}
    {c : Compiled} (h : compile renderer source tag = .ok c) :
    (∃ state, scan source = .ok ⟨c.tokens, state⟩) ∧ c.script = renderer.tokens c.tokens ∧
      locate c.script = .ok c.span ∧
      describe (c.span.slice c.script) tag = .ok (c.descriptor, c.remarks) ∧
      c.output = c.script.take c.span.start ++ generate c.descriptor (c.span.slice c.script) ++
        c.script.drop c.span.stop := by
  unfold compile assemble at h
  split at h
  · cases h
  · rename_i scanned hscan
    dsimp only at h
    split at h
    · cases h
    · rename_i span hspan
      split at h
      · cases h
      · rename_i descriptor remarks hdescribe
        cases h
        exact ⟨⟨scanned.state, hscan⟩, rfl, hspan, hdescribe, rfl⟩

/-- The places of a body that are edited: `k` is the end of its class head and `p` the offset of its
first directive. -/
structure EditSites (body : List Char) (tag : Option (List Char)) (d : Descriptor) (k p : Nat) :
    Prop where
  head : readClass? body = some (d.className, body.drop k)
  directive : ∃ found, readDirective? tag (body.drop p) = some found ∧
    found.text = d.directive ∧ found.tag = d.tag
  leftmost : ∀ i < p, readDirective? tag (body.drop i) = none
  order : k ≤ p
  inside : p + d.directive.length < body.length
  brace : body.getLast? = some '}'

/-- The script of a component with its body edited at two offsets and at its last brace. -/
def Compiled.edited (c : Compiled) (k p : Nat) : List Char :=
  let body := c.span.slice c.script
  c.script.take c.span.start ++ body.take k ++ c.descriptor.extension ++ (body.take p).drop k ++
    c.descriptor.construction ++
    (body.take (body.length - 1)).drop (p + c.descriptor.directive.length) ++
    c.descriptor.membersText ++ ['}'] ++ c.descriptor.registration ++ c.script.drop c.span.stop

theorem describe_eq_ok {body : List Char} {tag : Option (List Char)} {d : Descriptor}
    {remarks : List Remark} (h : describe body tag = .ok (d, remarks)) :
    (∃ heritage, classHeader? body = some (d.className, heritage)) ∧
      ∃ found, findDirective? (tag.filter (!·.isEmpty)) body = some found ∧
        found.text = d.directive ∧ found.tag = d.tag := by
  unfold describe at h
  dsimp only at h
  split at h
  · cases h
  · rename_i name heritage hheader
    split at h
    · cases h
    · rename_i found hfound
      cases h
      exact ⟨⟨heritage, hheader⟩, found, hfound, rfl, rfl⟩

/-- A located body that has a description has the places that are edited. -/
theorem exists_editSites {script : List Char} {span : Span} {tag : Option (List Char)}
    {d : Descriptor} {remarks : List Remark} (hspan : locate script = .ok span)
    (hdescribe : describe (span.slice script) tag = .ok (d, remarks)) :
    ∃ k p, EditSites (span.slice script) (tag.filter (!·.isEmpty)) d k p := by
  obtain ⟨-, -, hlast⟩ := getLast?_slice_of_locate hspan
  have hclass := readClass?_slice_of_locate hspan
  generalize span.slice script = body at *
  obtain ⟨⟨heritage, hheader⟩, found, hfound, htext, htag⟩ := describe_eq_ok hdescribe
  obtain ⟨rest, hhead⟩ := readClass?_of_classHeader? hclass hheader
  obtain ⟨p, hp, hbefore⟩ := findDirective?_eq_some hfound
  obtain ⟨⟨tail, htail⟩, -, hslash, hend⟩ := readDirective?_eq_some hp
  obtain ⟨blanks, -, -, -, -, -, hbody⟩ := readClass?_eq_some hhead
  generalize hk : classWord ++ blanks ++ d.className = head at hbody
  have hdrop : body.drop head.length = rest := by rw [hbody, List.drop_left]
  have hp_lt : p < body.length := by
    refine Nat.lt_of_not_le fun hle => ?_
    rw [List.drop_eq_nil_of_le hle] at htail
    rw [(List.append_eq_nil_iff.1 htail.symm).1] at hslash
    cases hslash
  refine ⟨head.length, p, ⟨?_, ⟨found, hp, htext, htag⟩, hbefore, ?_, ?_, hlast⟩⟩
  · rw [hdrop, hhead]
  · refine Nat.le_of_not_lt fun hlt => ?_
    rw [hbody] at hhead
    apply slash_not_mem_of_readClass? hhead
    have hget : body[p]? = some '/' := by
      rw [← List.head?_drop, htail, List.head?_append, hslash]
      rfl
    rw [hbody, List.getElem?_append_left hlt] at hget
    exact List.mem_of_getElem? hget
  · rw [← htext]
    refine Nat.lt_of_not_le fun hle => ?_
    have hlength := congrArg List.length htail
    rw [List.length_drop, List.length_append] at hlength
    have hnil : tail = [] := List.eq_nil_of_length_eq_zero (by omega)
    rw [hnil, List.append_nil] at htail
    have hlast' : (body.drop p).getLast? = some '}' := by
      rw [List.getLast?_drop, if_neg (by omega), hlast]
    rw [htail, hend] at hlast'
    exact absurd hlast' (by decide)

/-- The unit generated from a body is cut at the places that are edited. -/
theorem EditSites.generate_eq_slices {body : List Char} {tag : Option (List Char)}
    {d : Descriptor} {k p : Nat} (sites : EditSites body tag d k p) :
    generate d body = body.take k ++ d.extension ++ (body.take p).drop k ++ d.construction ++
      (body.take (body.length - 1)).drop (p + d.directive.length) ++ d.membersText ++ ['}'] ++
      d.registration := by
  obtain ⟨found, hp, htext, -⟩ := sites.directive
  have horder := sites.order
  have hinside := sites.inside
  obtain ⟨-, -, hslash, -⟩ := readDirective?_eq_some hp
  have hfirst := findFirst?_directive hp sites.leftmost
  rw [htext] at hslash hfirst
  have hfront : body.take k ++ (body.take p).drop k = body.take p := by
    have htake : body.take k = (body.take p).take k := by
      rw [List.take_take, Nat.min_eq_left horder]
    rw [htake, List.take_append_drop]
  have hback : body.drop (p + d.directive.length) =
      (body.take (body.length - 1)).drop (p + d.directive.length) ++ ['}'] := by
    obtain ⟨init, hinit⟩ := List.getLast?_eq_some_iff.1 sites.brace
    subst hinit
    rw [List.length_append, List.length_singleton] at hinside
    rw [List.length_append, List.length_singleton, Nat.add_sub_cancel, List.take_left,
      List.drop_append_of_le_length (by omega)]
  rw [hback] at hfirst
  have hsplit := findFirst?_append hfirst
  have hrest : body.drop k = (body.take p).drop k ++ d.directive ++
      ((body.take (body.length - 1)).drop (p + d.directive.length) ++ ['}']) := by
    refine List.append_cancel_left (?_ : body.take k ++ _ = body.take k ++ _)
    calc
      body.take k ++ body.drop k = body := List.take_append_drop k body
      _ = body.take k ++ (body.take p).drop k ++ d.directive ++
          ((body.take (body.length - 1)).drop (p + d.directive.length) ++ ['}']) := by
        rw [hfront]
        exact hsplit
      _ = _ := by simp only [List.append_assoc]
  refine generate_eq ?_ ?_ ?_ hslash
  · rw [← hrest, List.take_append_drop]
  · rw [← hrest, sites.head]
  · rw [hfront, hfirst]

/-- A compiled component is its script with exactly four edits: the base class behind the class head,
the constructor in place of the first directive, the members before the last brace of the body and
the registration behind it. -/
theorem compile_exactEdit {renderer : Renderer} {source : List Char} {tag : Option (List Char)}
    {c : Compiled} (h : compile renderer source tag = .ok c) :
    (∃ state, scan source = .ok ⟨c.tokens, state⟩) ∧ c.script = renderer.tokens c.tokens ∧
      locate c.script = .ok c.span ∧
      describe (c.span.slice c.script) tag = .ok (c.descriptor, c.remarks) ∧
      ∃ k p, EditSites (c.span.slice c.script) (tag.filter (!·.isEmpty)) c.descriptor k p ∧
        c.output = c.edited k p := by
  obtain ⟨hscan, hscript, hspan, hdescribe, houtput⟩ := compile_eq_ok h
  refine ⟨hscan, hscript, hspan, hdescribe, ?_⟩
  obtain ⟨k, p, sites⟩ := exists_editSites hspan hdescribe
  refine ⟨k, p, sites, ?_⟩
  rw [houtput, sites.generate_eq_slices]
  simp only [Compiled.edited, List.append_assoc]

/-- A component behind other code, with two directives of which only the first is replaced. -/
theorem compile_exactEdit_twoDirectives :
    ∃ c, compile {} "let x;class A \x7b // <a-b />\n// <a-b />\n\x7d;".toList
        (some "a-b".toList) = .ok c ∧
      c.output = ("let x;class A extends ComposcriptComponent \x7b ".toList ++
        defaultConstructor ++ "\n// <a-b />\n\n\tget requiredAttributes() \x7b\n".toList ++
        "\t\treturn [];\n\t\x7d\n\x7d\n\ncustomElements.define('a-b', A);;".toList) ∧
      ∃ k p, EditSites (c.span.slice c.script) (some "a-b".toList) c.descriptor k p ∧
        c.output = c.edited k p := by
  have houtput : (compile {} "let x;class A \x7b // <a-b />\n// <a-b />\n\x7d;".toList
      (some "a-b".toList)).toOption.map Compiled.output =
      some ("let x;class A extends ComposcriptComponent \x7b ".toList ++
        defaultConstructor ++ "\n// <a-b />\n\n\tget requiredAttributes() \x7b\n".toList ++
        "\t\treturn [];\n\t\x7d\n\x7d\n\ncustomElements.define('a-b', A);;".toList) := by
    decide +kernel
  obtain ⟨c, hc, hout⟩ := Option.map_eq_some_iff.1 houtput
  have hcompile : compile {} "let x;class A \x7b // <a-b />\n// <a-b />\n\x7d;".toList
      (some "a-b".toList) = .ok c := by
    cases h : compile {} "let x;class A \x7b // <a-b />\n// <a-b />\n\x7d;".toList
        (some "a-b".toList) with
    | error e => rw [h] at hc; cases hc
    | ok c' => rw [h] at hc; cases hc; rfl
  obtain ⟨-, -, -, -, hedit⟩ := compile_exactEdit hcompile
  exact ⟨c, hcompile, hout, hedit⟩

end ElementBundle.Component
