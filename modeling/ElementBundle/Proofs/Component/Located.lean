import ElementBundle.Proofs.Component.Boundary
import ElementBundle.Proofs.Source.Splice

/-! # Chains of located bodies

From the keyword of its class on, a located body is a chain of tokens that ends
inside a run of code, at the brace that closes it: `locate_eq_ok_iff_reads`. So
its text is scanned by itself as it is in the source, and holds an opening brace
behind the head of the class.
-/

namespace ElementBundle.Component

open ElementBundle.Text ElementBundle.Source ElementBundle.Markup

/-! ## The closing brace -/

/-- A text closes the body at its first brace in front of which one brace is open. -/
theorem depthAfter?_eq_none_iff {depth : Int} {s : List Char} :
    depthAfter? depth s = none ↔
      ∃ w x, s = w ++ '}' :: x ∧ depthAfter? depth w = some 1 := by
  constructor
  · intro h
    induction s generalizing depth with
    | nil => cases h
    | cons c s ih =>
        have tail : ∀ next, depthAfter? next s = none →
            (∀ w, depthAfter? depth (c :: w) = depthAfter? next w) →
            ∃ w x, c :: s = w ++ '}' :: x ∧ depthAfter? depth w = some 1 := by
          intro next hnone hstep
          obtain ⟨w, x, rfl, hw⟩ := ih hnone
          exact ⟨c :: w, x, rfl, (hstep w).trans hw⟩
        rw [depthAfter?] at h
        split at h
        · rename_i hc
          exact tail _ h fun w => by rw [depthAfter?, if_pos hc]
        · rename_i hc
          split at h
          · rename_i hc'
            split at h
            · rename_i hd
              exact ⟨[], s, by rw [hc']; rfl, by rw [hd]; rfl⟩
            · rename_i hd
              exact tail _ h fun w => by rw [depthAfter?, if_neg hc, if_pos hc', if_neg hd]
          · rename_i hc'
            exact tail _ h fun w => by rw [depthAfter?, if_neg hc, if_neg hc']
  · rintro ⟨w, x, rfl, hw⟩
    rw [depthAfter?_append, hw]
    rfl

theorem depthAfter?_le_of_not_mem {depth next : Int} {s : List Char} (hs : '{' ∉ s)
    (h : depthAfter? depth s = some next) : next ≤ depth := by
  induction s generalizing depth with
  | nil =>
      cases h
      exact Int.le_refl _
  | cons c s ih =>
      have hc : c ≠ '{' := fun hc => hs (hc ▸ List.mem_cons_self)
      have hs' : '{' ∉ s := fun hm => hs (List.mem_cons_of_mem c hm)
      rw [depthAfter?, if_neg hc] at h
      split at h
      · split at h
        · cases h
        · have hle := ih hs' h
          omega
      · exact ih hs' h

theorem codeText_cons (t : Token) (ts : List Token) :
    codeText (t :: ts) = codeText [t] ++ codeText ts := by
  simp [codeText]

theorem codeText_append (xs ys : List Token) :
    codeText (xs ++ ys) = codeText xs ++ codeText ys := by
  simp [codeText]

/-- Braces that are counted along tokens balance at the first brace in code in front of which one
is open. -/
theorem balance?_charsFrom_of_depthAfter? {depth : Int} {a : List Token} {w : List Char}
    (h : depthAfter? depth (codeText a ++ w) = some 1) (n : Nat) (x : List Char)
    (c : List Token) :
    balance? depth (charsFrom n (a ++ .code (w ++ '}' :: x) :: c)) =
      some (n + (a.flatMap Token.text ++ w).length + 1) := by
  rw [depthAfter?_append] at h
  obtain ⟨d, ha, hw⟩ := Option.bind_eq_some_iff.1 h
  have hcode : codeText [Token.code (w ++ '}' :: x)] = w ++ '}' :: x := by simp [codeText]
  rw [← map_snd_enumerateFrom (n + (a.flatMap Token.text).length) w] at hw
  rw [balance?_charsFrom_append ha, charsFrom_cons, hcode, enumerateFrom_append, List.append_assoc,
    balance?_append hw]
  simp [enumerateFrom, balance?, Nat.add_assoc]

theorem balance?_charsFrom_eq_some_iff {depth : Int} {n stop : Nat} {ts : List Token} :
    balance? depth (charsFrom n ts) = some stop ↔
      ∃ a w x c, ts = a ++ .code (w ++ '}' :: x) :: c ∧
        depthAfter? depth (codeText a ++ w) = some 1 ∧
        stop = n + (a.flatMap Token.text ++ w).length + 1 := by
  constructor
  · intro h
    induction ts generalizing depth n with
    | nil => cases h
    | cons t ts ih =>
        cases hnext : depthAfter? depth (codeText [t]) with
        | none =>
            obtain ⟨w, x, hcode, hw⟩ := depthAfter?_eq_none_iff.1 hnext
            obtain rfl : t = .code (w ++ '}' :: x) := by
              cases t with
              | code text => simpa [codeText] using hcode
              | _ => simp [codeText] at hcode
            have hstop := balance?_charsFrom_of_depthAfter? (a := []) hw n x ts
            exact ⟨[], w, x, ts, rfl, hw, Option.some.inj (h.symm.trans hstop)⟩
        | some d =>
            have hstep := balance?_charsFrom_append hnext n ts
            rw [List.singleton_append, List.flatMap_singleton] at hstep
            obtain ⟨a, w, x, c, rfl, hdepth, rfl⟩ := ih (hstep.symm.trans h)
            refine ⟨t :: a, w, x, c, rfl, ?_, ?_⟩
            · rw [codeText_cons, List.append_assoc, depthAfter?_append, hnext]
              exact hdepth
            · rw [List.flatMap_cons]
              simp only [List.length_append]
              omega
  · rintro ⟨a, w, x, c, rfl, hdepth, rfl⟩
    exact balance?_charsFrom_of_depthAfter? hdepth n x c

/-! ## Located bodies -/

/-- The first class of tokens is the first one of its run, and no run in front has any. -/
theorem exists_first_of_classFrom? {n k : Nat} {ts : List Token} (h : classFrom? n ts = some k) :
    ∃ pre u v post, ts = pre ++ .code (u ++ v) :: post ∧
      k = n + (pre.flatMap Token.text ++ u).length ∧ findClass? none (u ++ v) = some u.length ∧
      ∀ text, .code text ∈ pre → findClass? none text = none := by
  induction ts generalizing n with
  | nil => cases h
  | cons t ts ih =>
      have tail : (∀ text, t = .code text → findClass? none text = none) →
          ∃ pre u v post, t :: ts = pre ++ .code (u ++ v) :: post ∧
            k = n + (pre.flatMap Token.text ++ u).length ∧
            findClass? none (u ++ v) = some u.length ∧
            ∀ text, .code text ∈ pre → findClass? none text = none := by
        intro ht
        rw [classFrom?_cons ht] at h
        obtain ⟨pre, u, v, post, rfl, rfl, hclass, hpre⟩ := ih h
        refine ⟨t :: pre, u, v, post, rfl, ?_, hclass, fun text htext => ?_⟩
        · rw [List.flatMap_cons]
          simp only [List.length_append]
          omega
        · rcases List.mem_cons.1 htext with htext | htext
          · exact ht text htext.symm
          · exact hpre text htext
      cases t with
      | code text =>
          cases hfind : findClass? none text with
          | none =>
              refine tail fun text' htext => ?_
              cases htext
              exact hfind
          | some j =>
              rw [classFrom?_code, hfind] at h
              obtain ⟨u, v, rfl, rfl, -⟩ := findClass?_eq_some hfind
              exact ⟨[], u, v, ts, rfl, (Option.some.inj h).symm, hfind, by simp⟩
      | _ => exact tail fun _ htext => nomatch htext

/-- The component of a source starts with the first class in its code. -/
theorem exists_reads_of_start? {source : List Char} {k : Nat} (h : start? source = some k) :
    ∃ pre u v post final, Reads false .code source (pre ++ .code (u ++ v) :: post) final ∧
      k = (pre.flatMap Token.text ++ u).length ∧ findClass? none (u ++ v) = some u.length ∧
      ∀ text, .code text ∈ pre → findClass? none text = none := by
  obtain ⟨ts, final, hreads⟩ := exists_reads_plain .code source
  rw [start?_eq_classFrom? hreads] at h
  obtain ⟨pre, u, v, post, rfl, hk, hclass, hpre⟩ := exists_first_of_classFrom? h
  rw [Nat.zero_add] at hk
  exact ⟨pre, u, v, post, final, hreads, hk, hclass, hpre⟩

theorem readClass?_of_findClass? {u v : List Char} (h : findClass? none (u ++ v) = some u.length) :
    (readClass? v).isSome = true := by
  obtain ⟨a, b, hab, hlength, hb⟩ := findClass?_eq_some h
  obtain ⟨-, rfl⟩ := List.append_inj hab hlength.symm
  exact hb

/-- From the component on, the characters of code are those of a chain that starts there. -/
theorem exists_reads_drop_start {source : List Char} {k : Nat} (h : start? source = some k) :
    ∃ ts final, Reads false .code (source.drop k) ts final ∧
      (codeChars source).filter (fun x => k ≤ x.1) = charsFrom k ts := by
  obtain ⟨pre, u, v, post, final, hreads, rfl, hclass, -⟩ := exists_reads_of_start? h
  have hsource : source = (pre.flatMap Token.text ++ u) ++ (v ++ post.flatMap Token.text) := by
    rw [← hreads.flatMap_text]
    simp [Token.text]
  refine ⟨.code v :: post, final, ?_, ?_⟩
  · have hdrop := reads_drop_class hreads (readClass?_of_findClass? hclass)
    rwa [hsource, List.drop_left]
  · rw [codeChars_eq_charsFrom hreads]
    exact filter_charsFrom pre post u v

/-- A body is located where the chain that starts with its class reaches the closing brace. -/
theorem locate_eq_ok_iff_reads {source : List Char} {span : Span} :
    locate source = .ok span ↔
      start? source = some span.start ∧
        ∃ a w x c final,
          Reads false .code (source.drop span.start) (a ++ .code (w ++ '}' :: x) :: c) final ∧
          depthAfter? 0 (codeText a ++ w) = some 1 ∧
          span.stop = span.start + (a.flatMap Token.text ++ w).length + 1 := by
  rw [locate_eq_ok_iff, decide_natCast_le]
  constructor
  · rintro ⟨hstart, hstop⟩
    obtain ⟨ts, final, hreads, hchars⟩ := exists_reads_drop_start hstart
    rw [hchars] at hstop
    obtain ⟨a, w, x, c, rfl, hdepth, hlength⟩ := balance?_charsFrom_eq_some_iff.1 hstop
    exact ⟨hstart, a, w, x, c, final, hreads, hdepth, hlength⟩
  · rintro ⟨hstart, a, w, x, c, final, hreads, hdepth, hlength⟩
    obtain ⟨ts, final', hreads', hchars⟩ := exists_reads_drop_start hstart
    obtain rfl := hreads.unique hreads'
    refine ⟨hstart, ?_⟩
    rw [hchars, hlength]
    exact balance?_charsFrom_of_depthAfter? hdepth span.start x c

/-- A located body, scanned by itself, ends with the brace that closes it. -/
theorem exists_reads_slice {source : List Char} {span : Span} (h : locate source = .ok span) :
    ∃ a w, Reads false .code (span.slice source) (a ++ [.code (w ++ ['}'])]) .code ∧
      span.slice source = a.flatMap Token.text ++ (w ++ ['}']) ∧
      depthAfter? 0 (codeText a ++ w) = some 1 := by
  obtain ⟨-, a, w, x, c, final, hreads, hdepth, hlength⟩ := locate_eq_ok_iff_reads.1 h
  have hslice : span.slice source = a.flatMap Token.text ++ (w ++ ['}']) := by
    rw [Span.slice_eq_take_drop, ← hreads.flatMap_text]
    have hcut : (a ++ .code (w ++ '}' :: x) :: c).flatMap Token.text =
        (a.flatMap Token.text ++ (w ++ ['}'])) ++ (x ++ c.flatMap Token.text) := by
      simp [Token.text]
    rw [hcut, List.take_left']
    simp only [List.length_append, List.length_singleton] at hlength ⊢
    omega
  refine ⟨a, w, ?_, hslice, hdepth⟩
  rw [hslice]
  exact hreads.take_code (by decide) (by decide) (by decide)

/-! ## Heads of located bodies -/

/-- A class is read where its keyword, blanks and a whole name stand. -/
theorem readClass?_eq_some_iff {s name rest : List Char} :
    readClass? s = some (name, rest) ↔
      ∃ blanks, blanks ≠ [] ∧ (∀ b ∈ blanks, isBlank b = true) ∧
        name.head?.any isIdentStart = true ∧ (∀ c ∈ name.tail, isIdentRest c = true) ∧
        rest.head?.any isIdentRest = false ∧ s = classWord ++ blanks ++ name ++ rest := by
  constructor
  · exact readClass?_eq_some
  · rintro ⟨blanks, hne, hblank, hstart, hident, hstop, rfl⟩
    obtain ⟨b, blanks, rfl⟩ := List.exists_cons_of_ne_nil hne
    cases name with
    | nil => cases hstart
    | cons c name =>
        have hc : isIdentStart c = true := hstart
        have hb : isBlank b = true := hblank b List.mem_cons_self
        have hdrop : dropLeading? ['c', 'l', 'a', 's', 's']
            (classWord ++ b :: blanks ++ c :: name ++ rest) =
            some (b :: (blanks ++ c :: (name ++ rest))) := by
          rw [dropLeading?_eq_some_iff]
          simp [classWord]
        have hskip : (blanks ++ c :: (name ++ rest)).dropWhile isBlank = c :: (name ++ rest) :=
          dropWhile_append_stop (fun d hd => hblank d (List.mem_cons_of_mem b hd))
            (isBlank_eq_false_of_isIdentStart hc)
        have htake : (name ++ rest).takeWhile isIdentRest = name :=
          takeWhile_append_stop hident hstop
        have hrest : (name ++ rest).dropWhile isIdentRest = rest :=
          dropWhile_append_stop hident hstop
        unfold readClass?
        rw [hdrop]
        simp only [hb, hskip, hc, htake, hrest, if_true]

/-- Characters that may stand in the head of a class. -/
def isHeadChar (c : Char) : Bool :=
  isBlank c || isIdentStart c || isIdentRest c

theorem isHeadChar_of_mem {blanks name : List Char} (hblank : ∀ b ∈ blanks, isBlank b = true)
    (hstart : name.head?.any isIdentStart = true) (hident : ∀ c ∈ name.tail, isIdentRest c = true) :
    ∀ c ∈ classWord ++ blanks ++ name, isHeadChar c = true := by
  have hclass : classWord.all isHeadChar = true := by decide
  have hfirst : ∀ c, isBlank c = true ∨ isIdentStart c = true ∨ isIdentRest c = true →
      isHeadChar c = true := by
    intro c hc
    simpa [isHeadChar, or_assoc] using hc
  intro c hc
  rcases List.mem_append.1 hc with hc | hc
  · rcases List.mem_append.1 hc with hc | hc
    · exact List.all_eq_true.1 hclass c hc
    · exact hfirst c (.inl (hblank c hc))
  · cases name with
    | nil => cases hc
    | cons d name =>
        rcases List.mem_cons.1 hc with rfl | hc
        · exact hfirst c (.inr (.inl hstart))
        · exact hfirst c (.inr (.inr (hident c hc)))

theorem brace_not_mem_head {blanks name : List Char} {c : Char} (hc : c = '{' ∨ c = '}')
    (hblank : ∀ b ∈ blanks, isBlank b = true) (hstart : name.head?.any isIdentStart = true)
    (hident : ∀ c ∈ name.tail, isIdentRest c = true) : c ∉ classWord ++ blanks ++ name := by
  intro hm
  have hhead := isHeadChar_of_mem hblank hstart hident c hm
  rcases hc with rfl | rfl <;> exact absurd hhead (by decide)

theorem mem_flatMap_text_of_mem_codeText {c : Char} {ts : List Token} (h : c ∈ codeText ts) :
    c ∈ ts.flatMap Token.text := by
  obtain ⟨t, ht, hc⟩ := List.mem_flatMap.1 h
  refine List.mem_flatMap.2 ⟨t, ht, ?_⟩
  cases t with
  | code text => exact hc
  | _ => cases hc

theorem brace_mem_slice {source : List Char} {span : Span} (h : locate source = .ok span) :
    '{' ∈ span.slice source := by
  obtain ⟨a, w, -, hslice, hdepth⟩ := exists_reads_slice h
  have hmem : '{' ∈ codeText a ++ w := by
    by_contra hnot
    have hle := depthAfter?_le_of_not_mem hnot hdepth
    omega
  rw [hslice, ← List.append_assoc]
  refine List.mem_append_left _ ?_
  rcases List.mem_append.1 hmem with hmem | hmem
  · exact List.mem_append_left w (mem_flatMap_text_of_mem_codeText hmem)
  · exact List.mem_append_right _ hmem

theorem head?_isIdentRest_of_marked {afterColon : Bool} {rest : List Char}
    (h : Marked false afterColon rest) : rest.head?.any isIdentRest = false := by
  cases rest with
  | nil => rfl
  | cons c s =>
      show isIdentRest c = false
      obtain ⟨o, ho⟩ := Option.isSome_iff_exists.1 h
      obtain ⟨-, -, rfl, -⟩ | ⟨-, rfl, -⟩ | ⟨-, hq⟩ | ⟨_, _, -, hm, -⟩ := opener?_cases ho
      · decide
      · decide
      · simp only [isQuote, Bool.or_eq_true, beq_iff_eq] at hq
        rcases hq with (rfl | rfl) | rfl <;> decide
      · cases hm

theorem mem_runsFrom (n : Nat) (pre : List Token) (text : List Char) (post : List Token) :
    (n + (pre.flatMap Token.text).length, text) ∈ runsFrom n (pre ++ .code text :: post) := by
  induction pre generalizing n with
  | nil => exact List.mem_cons_self
  | cons t pre ih =>
      have htail := ih (n + t.text.length)
      rw [Nat.add_assoc, ← List.length_append, ← List.flatMap_cons] at htail
      cases t with
      | code text' => exact List.mem_cons_of_mem _ htail
      | _ => exact htail

theorem head?_eq_of_prefix {s t : List Char} (h : s <+: t) (hs : s ≠ []) : s.head? = t.head? := by
  obtain ⟨more, rfl⟩ := h
  obtain ⟨c, s, rfl⟩ := List.exists_cons_of_ne_nil hs
  rfl

/-- The head of a located body is the head that was found in the run of code where it starts, and
an opening brace follows it. -/
theorem exists_head_of_locate {source : List Char} {span : Span} (h : locate source = .ok span) :
    ∃ offset text j name tail rest, (offset, text) ∈ codeRuns source ∧
      findClass? none text = some j ∧ span.start = offset + j ∧
      readClass? (text.drop j) = some (name, tail) ∧
      readClass? (span.slice source) = some (name, rest) ∧ '{' ∈ rest := by
  obtain ⟨hlt, hle, hlast⟩ := getLast?_slice_of_locate h
  have hbrace := brace_mem_slice h
  obtain ⟨pre, u, v, post, final, hreads, hk, hclass, -⟩ :=
    exists_reads_of_start? (locate_eq_ok_iff.1 h).1
  obtain ⟨⟨name, tail⟩, hread⟩ :=
    Option.isSome_iff_exists.1 (readClass?_of_findClass? hclass)
  obtain ⟨blanks, hne, hblank, hstart, hident, hstop, rfl⟩ := readClass?_eq_some_iff.1 hread
  have hhead := brace_not_mem_head (.inr rfl) hblank hstart hident
  have hsource : source.drop span.start =
      (classWord ++ blanks ++ name) ++ (tail ++ post.flatMap Token.text) := by
    rw [← hreads.flatMap_text, hk]
    have hsplit : (pre ++ Token.code (u ++ (classWord ++ blanks ++ name ++ tail)) :: post).flatMap
        Token.text = (pre.flatMap Token.text ++ u) ++
          ((classWord ++ blanks ++ name) ++ (tail ++ post.flatMap Token.text)) := by
      simp [Token.text]
    rw [hsplit, List.drop_left]
  have hnext : (tail ++ post.flatMap Token.text).head?.any isIdentRest = false := by
    cases tail with
    | cons c tail => exact hstop
    | nil =>
        obtain ⟨mid, hmid⟩ := hreads.drop
        obtain ⟨next, head, -⟩ := hmid.uncons
        cases head with
        | code _ _ marked => exact head?_isIdentRest_of_marked marked
  rw [Span.slice_eq_take_drop, hsource] at hlast hbrace ⊢
  obtain ⟨rest, hrest⟩ := exists_take_eq_append hhead hlast
  rw [hrest] at hlast hbrace ⊢
  have hrest_ne : rest ≠ [] := by
    rintro rfl
    rw [List.append_nil] at hlast
    exact hhead (List.mem_of_getLast? hlast)
  have hrest_head : rest.head? = (tail ++ post.flatMap Token.text).head? := by
    refine head?_eq_of_prefix ?_ hrest_ne
    rw [← List.prefix_append_right_inj (classWord ++ blanks ++ name), ← hrest]
    exact List.take_prefix _ _
  refine ⟨(pre.flatMap Token.text).length, u ++ (classWord ++ blanks ++ name ++ tail), u.length,
    name, tail, rest, ?_, hclass, by rw [hk, List.length_append], ?_, ?_, ?_⟩
  · have hmem := mem_runsFrom 0 pre (u ++ (classWord ++ blanks ++ name ++ tail)) post
    rwa [Nat.zero_add, ← codeRuns_eq_runsFrom hreads] at hmem
  · rw [List.drop_left]
    exact hread
  · exact readClass?_eq_some_iff.2
      ⟨blanks, hne, hblank, hstart, hident, by rw [hrest_head]; exact hnext, rfl⟩
  · rcases List.mem_append.1 hbrace with hm | hm
    · exact absurd hm (brace_not_mem_head (.inl rfl) hblank hstart hident)
    · exact hm

end ElementBundle.Component
