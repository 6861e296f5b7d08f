import ElementBundle.Component.Compile
import ElementBundle.Proofs.Component.Body
import ElementBundle.Proofs.Markup.Stretches
import ElementBundle.Proofs.Text.Words

/-! # The line of an unclosed body

A component whose body is not closed is reported with a line of the script. Its
keyword is traced back through the two steps of rewriting to a keyword of the
source. The line of the source is the reported one and the lines that the steps
take out in front of it: those in the outer tags of a block of the component
itself, and those before the slash of a custom tag.
-/

namespace ElementBundle.Component

open ElementBundle.Text ElementBundle.Source ElementBundle.Markup

/-! ## Keywords in stretches -/

/-- The keyword of a class stands at the front of a text, with a blank behind it. -/
def KeywordAhead (s : List Char) : Prop :=
  ∃ b, isBlank b = true ∧ classWord ++ [b] <+: s

/-- Whether a keyword can go on with a character, or end with it. -/
def continuesKeyword (c : Char) : Bool :=
  isBlank c || ['l', 'a', 's'].contains c

/-- A text on one line in which no keyword starts and into which none goes on. -/
structure Barrier (s : List Char) : Prop where
  oneLine : '\n' ∉ s
  start : s.head?.any (fun c => !continuesKeyword c) = true
  stop : s.getLast?.any (fun c => !(classWord.contains c)) = true
  quiet : 'c' ∈ s → s.all (fun c => !isBlank c) = true

theorem keywordAhead_of_readClass? {s : List Char} (h : (readClass? s).isSome = true) :
    KeywordAhead s := by
  obtain ⟨blanks, c, rest, hne, hblank, -, rfl⟩ := readClass?_isSome_iff.1 h
  obtain ⟨b, blanks, rfl⟩ := List.exists_cons_of_ne_nil hne
  refine ⟨b, hblank b List.mem_cons_self, blanks ++ c :: rest, ?_⟩
  simp

theorem Barrier.not_keywordAhead {s : List Char} (hs : Barrier s) {k : Nat} (hk : k < s.length)
    (more : List Char) : ¬ KeywordAhead (s.drop k ++ more) := by
  rintro ⟨b, hb, hword⟩
  have whole : ¬ classWord ++ [b] <+: s.drop k := by
    intro hleading
    have hmem : ∀ c ∈ classWord ++ [b], c ∈ s :=
      fun c hc => List.mem_of_mem_drop (hleading.subset hc)
    have hquiet := hs.quiet (hmem 'c' (by simp [classWord]))
    have hblank := List.all_eq_true.1 hquiet b (hmem b (by simp))
    rw [hb] at hblank
    cases hblank
  rcases List.prefix_or_prefix_of_prefix hword (List.prefix_append (s.drop k) more) with
    hleading | hleading
  · exact whole hleading
  · rcases List.prefix_concat_iff.1 hleading with heq | hpart
    · exact whole (heq ▸ List.prefix_rfl)
    · have hne : s ≠ [] := List.ne_nil_of_length_pos (by omega)
      have hlast : (s.drop k).getLast? = some (s.getLast hne) := by
        rw [List.getLast?_drop, if_neg (by omega), List.getLast?_eq_some_getLast]
      have hletter := hpart.subset (List.mem_of_getLast? hlast)
      have hstop := hs.stop
      rw [List.getLast?_eq_some_getLast hne] at hstop
      simp [hletter] at hstop

section
variable {xs : List Stretch} (hnew : ∀ old new, .replaced old new ∈ xs → Barrier new)
include hnew

theorem isPrefix_source {p : List Char} (hp : ∀ c ∈ p, continuesKeyword c = true)
    (h : p <+: xs.flatMap Stretch.result) : p <+: xs.flatMap Stretch.source := by
  induction xs generalizing p with
  | nil => exact h
  | cons x xs ih =>
      have hrest : ∀ old new, .replaced old new ∈ xs → Barrier new :=
        fun old new hmem => hnew old new (List.mem_cons_of_mem x hmem)
      rw [List.flatMap_cons] at h ⊢
      cases x with
      | kept s =>
          obtain ⟨t, ht⟩ := h
          rcases List.append_eq_append_iff.1 ht with ⟨a, hs, -⟩ | ⟨q, rfl, hq⟩
          · have hs : s = p ++ a := hs
            rw [Stretch.source, hs, List.append_assoc]
            exact List.prefix_append p _
          · have htail : q <+: xs.flatMap Stretch.source :=
              ih hrest (fun c hc => hp c (List.mem_append_right _ hc)) ⟨t, hq.symm⟩
            exact (List.prefix_append_right_inj s).2 htail
      | replaced old new =>
          cases p with
          | nil => exact List.nil_prefix
          | cons c p =>
              have hstart := (hnew old new List.mem_cons_self).start
              cases new with
              | nil => cases hstart
              | cons d new =>
                  have hd : c = d := (List.cons_prefix_cons.1 h).1
                  have hc := hp c List.mem_cons_self
                  simp only [List.head?_cons, Option.any_some, ← hd, hc] at hstart
                  cases hstart

/-- A keyword that starts in a kept text goes on in the source as in the result. -/
theorem KeywordAhead.source {w : List Char} (hw : w ≠ [])
    (h : KeywordAhead (w ++ xs.flatMap Stretch.result)) :
    KeywordAhead (w ++ xs.flatMap Stretch.source) := by
  obtain ⟨c, w, rfl⟩ := List.exists_cons_of_ne_nil hw
  obtain ⟨b, hb, hword⟩ := h
  obtain ⟨hc, htail⟩ := List.cons_prefix_cons.1 hword
  have hcontinues : ∀ d ∈ ['l', 'a', 's', 's'] ++ [b], continuesKeyword d = true := by
    simp [continuesKeyword, hb]
  have hkept : ∀ old new, .replaced old new ∈ .kept w :: xs → Barrier new := by
    intro old new hmem
    rcases List.mem_cons.1 hmem with heq | hmem
    · cases heq
    · exact hnew old new hmem
  exact ⟨b, hb, List.cons_prefix_cons.2 ⟨hc, isPrefix_source hkept hcontinues htail⟩⟩

theorem exists_origin {k : Nat} (h : KeywordAhead ((xs.flatMap Stretch.result).drop k)) :
    ∃ o, origin? xs k = some o ∧ KeywordAhead ((xs.flatMap Stretch.source).drop o) := by
  induction xs generalizing k with
  | nil =>
      obtain ⟨b, -, hword⟩ := h
      simp [classWord] at hword
  | cons x xs ih =>
      have hrest : ∀ old new, .replaced old new ∈ xs → Barrier new :=
        fun old new hmem => hnew old new (List.mem_cons_of_mem x hmem)
      rw [List.flatMap_cons] at h ⊢
      rw [origin?]
      by_cases hk : k < x.result.length
      · rw [if_pos hk]
        rw [List.drop_append_of_le_length (Nat.le_of_lt hk)] at h
        cases x with
        | kept s =>
            have hk : k < s.length := hk
            have hne : s.drop k ≠ [] := fun hnil => by
              have hle := List.drop_eq_nil_iff.1 hnil
              omega
            refine ⟨k, rfl, ?_⟩
            rw [Stretch.source, List.drop_append_of_le_length (Nat.le_of_lt hk)]
            exact KeywordAhead.source hrest hne h
        | replaced old new =>
            exact absurd h ((hnew old new List.mem_cons_self).not_keywordAhead hk _)
      · obtain ⟨j, rfl⟩ : ∃ j, k = x.result.length + j := ⟨k - x.result.length, by omega⟩
        rw [List.drop_length_add_append] at h
        obtain ⟨o, ho, hahead⟩ := ih hrest h
        rw [if_neg hk, Nat.add_sub_cancel_left, ho]
        refine ⟨_, rfl, ?_⟩
        rw [List.drop_length_add_append]
        exact hahead

end

/-! ## What is put in -/

theorem barrier_of_mem_marks {selfTag : Option (List Char)} {s : List Char}
    (h : s ∈ ({ selfTag } : Renderer).marks) : Barrier s := by
  simp only [Renderer.marks, List.mem_cons, List.not_mem_nil, or_false] at h
  rcases h with rfl | rfl | rfl | rfl | rfl | rfl | rfl | rfl <;>
    exact ⟨by decide, by decide, by decide, by decide⟩

theorem barrier_closer {t : Tag} (h : TagName t.name) : Barrier t.closer := by
  have hname : ∀ c ∈ t.name, isBlank c = false := by
    obtain ⟨c, more, hname, hc, hmore⟩ := h
    have hstart : isIdentStart c = true := by simp [isIdentStart, hc]
    intro d hd
    rw [hname] at hd
    rcases List.mem_cons.1 hd with rfl | hd
    · exact isBlank_eq_false_of_isIdentStart hstart
    · by_contra hblank
      have hrest := isNameRest_eq_false_of_isBlank (by simpa using hblank)
      rw [hmore d hd] at hrest
      cases hrest
  have hblank : ∀ c ∈ t.closer, isBlank c = false := by
    intro c hc
    simp only [Tag.closer, List.cons_append, List.mem_cons, List.mem_append, List.not_mem_nil,
      or_false] at hc
    rcases hc with rfl | rfl | rfl | hc | rfl
    · decide
    · decide
    · decide
    · exact hname c hc
    · decide
  refine ⟨fun hfeed => ?_, ?_, ?_, fun _ => ?_⟩
  · exact absurd (hblank _ hfeed) (by decide)
  · show (!continuesKeyword '>') = true
    decide
  · simp [Tag.closer, classWord, List.getLast?_cons]
  · simpa using hblank

/-! ## Reported lines -/

/-- The two steps of rewriting that lead from a source to its script. -/
structure Rewritten (r : Renderer) (source : List Char) (ts : List Token)
    (expansion rendering : List Stretch) : Prop where
  scanned : ∃ state, scan source = .ok ⟨ts, state⟩
  expands : Expands ts expansion
  renders : rendering = ts.flatMap r.tokenStretches
  source_eq : expansion.flatMap Stretch.source = source
  meets : expansion.flatMap Stretch.result = rendering.flatMap Stretch.source
  script_eq : rendering.flatMap Stretch.result = r.tokens ts

theorem exists_rewritten (r : Renderer) {source : List Char} {scanned : Scan}
    (h : scan source = .ok scanned) :
    ∃ expansion rendering, Rewritten r source scanned.tokens expansion rendering := by
  obtain ⟨final, hreads, -⟩ := scan_eq_ok_iff.1 h
  obtain ⟨expansion, hexpands⟩ := exists_expands hreads
  refine ⟨expansion, _, ⟨scanned.state, h⟩, hexpands, rfl, ?_, ?_, result_tokenStretches r _⟩
  · rw [hexpands.source, hreads.flatMap_text]
  · rw [hexpands.result, source_tokenStretches]

theorem Rewritten.barrier_rendering {selfTag : Option (List Char)} {source : List Char}
    {ts : List Token} {expansion rendering : List Stretch}
    (h : Rewritten { selfTag } source ts expansion rendering) :
    ∀ old new, .replaced old new ∈ rendering → Barrier new := by
  intro old new hmem
  rw [h.renders] at hmem
  exact barrier_of_mem_marks (Renderer.mark_of_mem_stretches hmem).1

theorem Rewritten.barrier_expansion {r : Renderer} {source : List Char} {ts : List Token}
    {expansion rendering : List Stretch} (h : Rewritten r source ts expansion rendering) :
    ∀ old new, .replaced old new ∈ expansion → Barrier new := by
  intro old new hmem
  obtain ⟨t, -, -, hname, -, rfl⟩ := h.expands.tag_of_mem hmem
  exact barrier_closer hname

theorem locate_of_compile_unclosedBody {r : Renderer} {source : List Char}
    {tag : Option (List Char)} {line : Nat}
    (h : compile r source tag = .error ⟨.extract, .unclosedBody line⟩) :
    ∃ scanned, scan source = .ok scanned ∧
      locate (r.tokens scanned.tokens) = .error (.unclosedBody line) := by
  unfold compile assemble at h
  split at h
  · cases h
  · rename_i scanned hscan
    dsimp only at h
    refine ⟨scanned, hscan, ?_⟩
    split at h
    · rename_i hlocate
      cases h
      exact hlocate
    · split at h <;> cases h

theorem start?_of_unclosedBody {script : List Char} {line : Nat}
    (h : locate script = .error (.unclosedBody line)) :
    ∃ k, start? script = some k ∧ line = lineAt script k := by
  unfold locate at h
  split at h
  · cases h
  · rename_i k hstart
    refine ⟨k, hstart, ?_⟩
    unfold bodyStop at h
    split at h <;> cases h
    rfl

/-- An unclosed body is reported with the line of its keyword, less the lines that rewriting takes
out in front of it. The report names the line of the source unless a line feed stands in front of
the keyword in an outer tag of a block of the component itself, or before the slash of a custom
tag. -/
theorem unclosedBody_line {selfTag : Option (List Char)} {source : List Char}
    {tag : Option (List Char)} {line : Nat}
    (h : compile { selfTag } source tag = .error ⟨.extract, .unclosedBody line⟩) :
    ∃ ts expansion rendering k j o, Rewritten { selfTag } source ts expansion rendering ∧
      start? (rendering.flatMap Stretch.result) = some k ∧
      origin? rendering k = some j ∧ origin? expansion j = some o ∧
      classWord <+: source.drop o ∧
      line + newlines (dropped rendering k) + newlines (dropped expansion j) = lineAt source o ∧
      (line = lineAt source o ↔ '\n' ∉ dropped rendering k ∧ '\n' ∉ dropped expansion j) ∧
      ('\n' ∈ dropped rendering k → ∃ text b, .markup text b ∈ ts ∧ selfTag = some b.name ∧
        ('\n' ∈ b.opening.flatMap Part.source ∨ '\n' ∈ b.closing.flatMap Part.source)) ∧
      ('\n' ∈ dropped expansion j →
        ∃ t : Tag, t.isCustom = true ∧ t.text <:+: source ∧ '\n' ∈ t.trailing) := by
  obtain ⟨scanned, hscan, hlocate⟩ := locate_of_compile_unclosedBody h
  obtain ⟨k, hstart, hline⟩ := start?_of_unclosedBody hlocate
  obtain ⟨expansion, rendering, hrewritten⟩ := exists_rewritten { selfTag } hscan
  rw [← hrewritten.script_eq] at hstart hline
  obtain ⟨j, hj, hmiddle⟩ := exists_origin hrewritten.barrier_rendering
    (keywordAhead_of_readClass? (readClass?_drop_start hstart))
  rw [← hrewritten.meets] at hmiddle
  obtain ⟨o, ho, hkeyword⟩ := exists_origin hrewritten.barrier_expansion hmiddle
  have hrendered := newlines_take_origin (fun old new hmem =>
    (hrewritten.barrier_rendering old new hmem).oneLine) hj
  have hexpanded := newlines_take_origin (fun old new hmem =>
    (hrewritten.barrier_expansion old new hmem).oneLine) ho
  rw [hrewritten.source_eq] at hkeyword hexpanded
  rw [hrewritten.meets] at hexpanded
  have hlines : line + newlines (dropped rendering k) + newlines (dropped expansion j) =
      lineAt source o := by
    rw [hline, lineAt, lineAt]
    omega
  refine ⟨scanned.tokens, expansion, rendering, k, j, o, hrewritten, hstart, hj, ho, ?_, hlines,
    ?_, ?_, ?_⟩
  · obtain ⟨b, -, hword⟩ := hkeyword
    exact (List.prefix_append classWord [b]).trans hword
  · rw [← List.count_eq_zero, ← List.count_eq_zero]
    unfold newlines at hlines
    omega
  · intro hfeed
    obtain ⟨old, new, hmem, hold⟩ := mem_dropped hfeed
    rw [hrewritten.renders] at hmem
    obtain ⟨text, b, hb, hself, hsource⟩ := (Renderer.mark_of_mem_stretches hmem).2 hold
    refine ⟨text, b, hb, hself, ?_⟩
    rcases hsource with rfl | rfl
    · exact .inl hold
    · exact .inr hold
  · intro hfeed
    obtain ⟨old, new, hmem, hold⟩ := mem_dropped hfeed
    obtain ⟨t, hcustom, htext, -, rfl, -⟩ := hrewritten.expands.tag_of_mem hmem
    refine ⟨t, hcustom, ?_, ?_⟩
    · rw [← hrewritten.source_eq, hrewritten.expands.source]
      exact htext
    · rcases List.mem_append.1 hold with hold | hold
      · exact hold
      · exact absurd hold (by decide)

theorem eq_error_of_map {α β : Type} {f : α → β} {x : Except Failure α} {e : Failure}
    (h : x.map f = .error e) : x = .error e := by
  cases x with
  | error e' => exact congrArg Except.error (Except.error.inj h)
  | ok a => cases h

/-- A block of the component itself and a custom tag, each with a line feed that is taken out. -/
theorem unclosedBody_line_lost :
    let source := "<This\n>\n<a-b\n/></This>\nclass A \x7b".toList
    compile {} source none = .error ⟨.extract, .unclosedBody 3⟩ ∧
      ∃ ts expansion rendering k j o, Rewritten {} source ts expansion rendering ∧
        origin? rendering k = some j ∧ origin? expansion j = some o ∧
        classWord <+: source.drop o ∧
        3 + newlines (dropped rendering k) + newlines (dropped expansion j) = lineAt source o := by
  intro source
  have h : compile {} source none = .error ⟨.extract, .unclosedBody 3⟩ :=
    eq_error_of_map (f := fun _ => ()) (by decide +kernel)
  obtain ⟨ts, expansion, rendering, k, j, o, hrewritten, -, hj, ho, hword, hlines, -⟩ :=
    unclosedBody_line h
  exact ⟨h, ts, expansion, rendering, k, j, o, hrewritten, hj, ho, hword, hlines⟩

/-- A body is reported one line above its keyword. -/
theorem unclosedBody_line_custom :
    let source := "<a-b\n/>\nclass A \x7b".toList
    compile {} source none = .error ⟨.extract, .unclosedBody 2⟩ ∧
      start? source = some 8 ∧ lineAt source 8 = 3 := by
  intro source
  refine ⟨eq_error_of_map (f := fun _ => ()) ?_, ?_, ?_⟩
  · decide +kernel
  · decide +kernel
  · decide

end ElementBundle.Component
