import ElementBundle.Proofs.Component.Located

/-! # Outcomes of a compilation

Each phase has its own errors, so the phases that were started tell which
outcomes are left. A body that was located always has a header, and the words of
a directive never spell an attribute that cannot be.
-/

namespace ElementBundle.Component

open ElementBundle.Text ElementBundle.Source ElementBundle.Markup

/-! ## Bodies with a header -/

theorem findClass?_of_readClass? {body : List Char} (h : (readClass? body).isSome = true) :
    findClass? none body = some 0 := by
  cases body with
  | nil => cases h
  | cons c body => rw [findClass?, if_pos (by rw [h]; rfl)]

/-- The header of a class goes up to the first opening brace behind its name. -/
theorem classHeader?_of_readClass? {body name rest : List Char}
    (h : readClass? body = some (name, rest)) (hbrace : '{' ∈ rest) :
    classHeader? body = some (name, rest.takeWhile (· ≠ '{')) := by
  have hfind : findClass? none body = some 0 := findClass?_of_readClass? (by rw [h]; rfl)
  unfold classHeader?
  rw [hfind]
  simp [h, hbrace]

/-- The header of a body stands at its front and names the class whose keyword was found there: the
first one of a run of code. -/
def Headed (script : List Char) (span : Span) : Prop :=
  start? script = some span.start ∧
    ∃ offset text j name tail heritage, (offset, text) ∈ codeRuns script ∧
      findClass? none text = some j ∧ span.start = offset + j ∧
      readClass? (text.drop j) = some (name, tail) ∧
      findClass? none (span.slice script) = some 0 ∧
      classHeader? (span.slice script) = some (name, heritage)

theorem headed_of_locate {script : List Char} {span : Span} (h : locate script = .ok span) :
    Headed script span := by
  obtain ⟨offset, text, j, name, tail, rest, hrun, hfind, hstart, hread, hbody, hbrace⟩ :=
    exists_head_of_locate h
  exact ⟨(locate_eq_ok_iff.1 h).1, offset, text, j, name, tail, _, hrun, hfind, hstart, hread,
    findClass?_of_readClass? (by rw [hbody]; rfl), classHeader?_of_readClass? hbody hbrace⟩

theorem describe_eq_error_of_locate {script : List Char} {span : Span}
    {tag : Option (List Char)} {e : Error} (hspan : locate script = .ok span)
    (h : describe (span.slice script) tag = .error e) :
    ∃ missing, e = .missingDirective missing := by
  obtain ⟨-, _, _, _, name, _, heritage, -, -, -, -, -, hheader⟩ := headed_of_locate hspan
  unfold describe at h
  simp only [hheader] at h
  split at h
  · cases h
    exact ⟨_, rfl⟩
  · cases h

/-! ## Words of a directive -/

theorem make_spelled (word : List Char) :
    Attribute.make (spelled word).1 (spelled word).2.1 (spelled word).2.2 =
      .ok (wordShape word) := by
  unfold wordShape spelled
  split
  · rfl
  · split
    · rfl
    · split <;> rfl

theorem classify_eq_some {word : List Char} {a : Attribute} {remarks : List Remark}
    (h : classify word = (some a, remarks)) : a = wordShape (trim word) := by
  unfold classify at h
  dsimp only at h
  split at h
  · cases h
  · split at h
    · cases h
    · cases h
      rfl

/-- Every attribute that is declared is spelled by one of the words. -/
theorem exists_word_of_mem_declareFrom {taken ws : List (List Char)} {a : Attribute}
    (ha : a ∈ (declareFrom taken ws).1) : ∃ word ∈ ws, a = wordShape (trim word) := by
  induction ws generalizing taken with
  | nil => cases ha
  | cons w ws ih =>
      have tail : ∀ taken, a ∈ (declareFrom taken ws).1 →
          ∃ word ∈ w :: ws, a = wordShape (trim word) := by
        intro taken hm
        obtain ⟨word, hword, hshape⟩ := ih hm
        exact ⟨word, List.mem_cons_of_mem w hword, hshape⟩
      rw [declareFrom] at ha
      split at ha
      · exact tail taken ha
      · rename_i b remarks hclassify
        split at ha
        · exact tail taken ha
        · rcases List.mem_cons.1 ha with rfl | ha
          · exact ⟨w, List.mem_cons_self, classify_eq_some hclassify⟩
          · exact tail _ ha

/-! ## Errors of the phases -/

theorem locate_eq_error_cases {script : List Char} {e : Error} (h : locate script = .error e) :
    e = .noComponent ∨ ∃ line, e = .unclosedBody line := by
  unfold locate at h
  split at h
  · cases h
    exact .inl rfl
  · unfold bodyStop at h
    split at h
    · cases h
    · cases h
      exact .inr ⟨_, rfl⟩

/-- A phase and an error that it can end with. -/
inductive Arises : Phase → Error → Prop
  | render (line : Nat) (element : Option (List Char)) :
      Arises .render (.unclosedMarkup line element)
  | noComponent : Arises .extract .noComponent
  | unclosedBody (line : Nat) : Arises .extract (.unclosedBody line)
  | generate (missing : List Char) : Arises .generate (.missingDirective missing)

/-- A compilation fails with an error of the phase in which it stops. -/
theorem arises_of_compile {renderer : Renderer} {source : List Char} {tag : Option (List Char)}
    {f : Failure} (h : compile renderer source tag = .error f) : Arises f.phase f.error := by
  unfold compile assemble at h
  split at h
  · cases h
    exact .render _ _
  · dsimp only at h
    split at h
    · rename_i e hlocate
      cases h
      rcases locate_eq_error_cases hlocate with rfl | ⟨line, rfl⟩
      · exact .noComponent
      · exact .unclosedBody line
    · rename_i span hlocate
      split at h
      · rename_i e hdescribe
        cases h
        obtain ⟨missing, rfl⟩ := describe_eq_error_of_locate hlocate hdescribe
        exact .generate missing
      · cases h

/-- A compilation ends with a component after its last phase, or with an error of the phase in
which it stops. -/
theorem compileFile_cases (renderer : Renderer) (file : Option String) (source : List Char)
    (tag : Option (List Char)) :
    (∃ c, compileFile renderer file source tag = ⟨Phase.generate.started, .ok c⟩) ∨
      ∃ phase e, Arises phase e ∧
        compileFile renderer file source tag = ⟨phase.started, .error ⟨e, file⟩⟩ := by
  unfold compileFile courseOf
  cases hcompile : compile renderer source tag with
  | ok c => exact .inl ⟨c, rfl⟩
  | error f => exact .inr ⟨f.phase, f.error, arises_of_compile hcompile, rfl⟩

/-- The phases that were started and the outcome determine each other, and every error carries the
file. A located body always has its header, and no word of a directive spells an attribute that is
refused. -/
theorem compileFile_outcome (renderer : Renderer) (file : Option String) (source : List Char)
    (tag : Option (List Char)) :
    let course := compileFile renderer file source tag
    (course.phases = [.render] ↔
      ∃ line element, course.outcome = .error ⟨.unclosedMarkup line element, file⟩) ∧
    (course.phases = [.render, .extract] ↔
      course.outcome = .error ⟨.noComponent, file⟩ ∨
        ∃ line, course.outcome = .error ⟨.unclosedBody line, file⟩) ∧
    (course.phases = [.render, .extract, .generate] ↔
      (∃ c, course.outcome = .ok c) ∨
        ∃ missing, course.outcome = .error ⟨.missingDirective missing, file⟩) ∧
    (course.phases = [.render] ∨ course.phases = [.render, .extract] ∨
      course.phases = [.render, .extract, .generate]) ∧
    (∀ script span, locate script = .ok span →
      Headed script span ∧ ∀ tag, describe (span.slice script) tag ≠ .error .noComponent) ∧
    (∀ word, Attribute.make (spelled word).1 (spelled word).2.1 (spelled word).2.2 =
      .ok (wordShape word)) ∧
    ∀ specs, ∀ a ∈ (declare specs).1, ∃ word ∈ words specs, a = wordShape (trim word) := by
  intro course
  have hlocated : ∀ script span, locate script = .ok span →
      Headed script span ∧ ∀ tag, describe (span.slice script) tag ≠ .error .noComponent := by
    intro script span hspan
    refine ⟨headed_of_locate hspan, fun tag hnone => ?_⟩
    obtain ⟨missing, h⟩ := describe_eq_error_of_locate hspan hnone
    cases h
  have hdeclared : ∀ specs, ∀ a ∈ (declare specs).1, ∃ word ∈ words specs,
      a = wordShape (trim word) := fun _ _ ha => exists_word_of_mem_declareFrom ha
  have hcases := compileFile_cases renderer file source tag
  rcases hcases with ⟨c, hcourse⟩ | ⟨phase, e, harises, hcourse⟩
  · rw [show course = _ from hcourse]
    refine ⟨?_, ?_, ?_, ?_, hlocated, make_spelled, hdeclared⟩
    all_goals simp [Phase.started]
  · rw [show course = _ from hcourse]
    refine ⟨?_, ?_, ?_, ?_, hlocated, make_spelled, hdeclared⟩
    all_goals cases harises <;> simp [Phase.started]

/-- A component whose body stays open, and a located one with a brace in a comment of its header. -/
theorem compileFile_outcome_open :
    let file := some "a.js"
    let opened := compileFile {} file "class A \x7b // <a-b />".toList none
    let script := "let x; class A /* \x7b */ \x7b\x7d;".toList
    opened.phases = [.render, .extract] ∧
      (opened.outcome = .error ⟨.noComponent, file⟩ ∨
        ∃ line, opened.outcome = .error ⟨.unclosedBody line, file⟩) ∧
      locate script = .ok ⟨7, 25⟩ ∧ Headed script ⟨7, 25⟩ ∧
      ∀ tag, describe (Span.slice ⟨7, 25⟩ script) tag ≠ .error .noComponent := by
  intro file opened script
  obtain ⟨-, hextract, -, -, hlocated, -⟩ :=
    compileFile_outcome {} file "class A \x7b // <a-b />".toList none
  have hphases : opened.phases = [.render, .extract] := by decide +kernel
  have hspan : locate script = .ok ⟨7, 25⟩ := by decide +kernel
  exact ⟨hphases, hextract.1 hphases, hspan, hlocated script _ hspan⟩

end ElementBundle.Component
