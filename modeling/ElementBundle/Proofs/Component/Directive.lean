import ElementBundle.Component.Directive
import ElementBundle.Proofs.Text.Search

/-! # Directives in longer texts

The reader of directives is local: a directive reads the same in front of any
text. So the first place at which one can be read is also the first place at
which its text occurs.
-/

namespace ElementBundle.Component

open ElementBundle.Text

/-! ## Declarations and the end mark -/

/-- Whether only blanks stand before an end mark. -/
def atEndMark (s : List Char) : Bool :=
  startsWith ['/', '>'] (s.dropWhile isBlank)

def IsStop (stop : List Char) : Prop :=
  ∃ blanks, (∀ b ∈ blanks, isBlank b = true) ∧ stop = blanks ++ ['/', '>']

theorem startsWith_pair (a b c d : Char) (s : List Char) :
    startsWith [a, b] (c :: d :: s) = (decide (a = c) && decide (b = d)) := by
  by_cases hc : a = c <;> by_cases hd : b = d <;> simp [startsWith, dropLeading?, hc, hd]

theorem isBlank_slash : isBlank '/' = false := by decide

/-- What stands behind an end mark does not change where the first one is. -/
theorem atEndMark_append (s rest : List Char) :
    atEndMark (s ++ '/' :: '>' :: rest) = atEndMark (s ++ ['/', '>']) := by
  induction s with
  | nil => rfl
  | cons c s ih =>
      by_cases hc : isBlank c = true
      · simpa [atEndMark, hc] using ih
      · cases s with
        | nil => simp [atEndMark, hc, startsWith, dropLeading?]
        | cons d s =>
            have hkeep : ∀ u, (c :: u).dropWhile isBlank = c :: u :=
              fun u => List.dropWhile_cons_of_neg hc
            simp only [atEndMark, List.cons_append, hkeep, startsWith_pair]

theorem atEndMark_stop {blanks : List Char} (hblanks : ∀ b ∈ blanks, isBlank b = true)
    (rest : List Char) : atEndMark (blanks ++ '/' :: '>' :: rest) = true := by
  have hstop : (blanks ++ '/' :: '>' :: rest).dropWhile isBlank = '/' :: '>' :: rest :=
    dropWhile_append_stop hblanks isBlank_slash
  rw [atEndMark, hstop]
  rfl

theorem exists_of_atEndMark {s : List Char} (h : atEndMark s = true) :
    ∃ rest, s = s.takeWhile isBlank ++ '/' :: '>' :: rest := by
  obtain ⟨rest, hrest⟩ := Option.isSome_iff_exists.1 h
  refine ⟨rest, ?_⟩
  calc
    s = s.takeWhile isBlank ++ s.dropWhile isBlank := List.takeWhile_append_dropWhile.symm
    _ = s.takeWhile isBlank ++ '/' :: '>' :: rest := by
      rw [dropLeading?_eq_some_iff.1 hrest]
      rfl

theorem readSpecs?_of_atEndMark {s : List Char} (h : atEndMark s = true) :
    readSpecs? s = some ([], s.takeWhile isBlank ++ ['/', '>']) := by
  cases s with
  | nil => cases h
  | cons c s =>
      have hend : startsWith ['/', '>'] ((c :: s).dropWhile isBlank) = true := h
      rw [readSpecs?, if_pos hend]

theorem readSpecs?_cons {c : Char} {s : List Char} (h : atEndMark (c :: s) = false)
    (hc : c ≠ '\n') :
    readSpecs? (c :: s) = (readSpecs? s).map fun (specs, stop) => (c :: specs, stop) := by
  have hend : ¬ startsWith ['/', '>'] ((c :: s).dropWhile isBlank) = true := by
    rw [← atEndMark, h]
    exact Bool.false_ne_true
  rw [readSpecs?, if_neg hend, if_neg hc]

/-- Declarations end at the first end mark, and what follows it plays no part. -/
theorem readSpecs?_eq_some {s specs stop : List Char} (h : readSpecs? s = some (specs, stop)) :
    IsStop stop ∧ (∃ rest, s = specs ++ stop ++ rest) ∧
      ∀ rest, readSpecs? (specs ++ stop ++ rest) = some (specs, stop) := by
  induction s generalizing specs with
  | nil => cases h
  | cons c s ih =>
      rw [readSpecs?] at h
      split at h
      · rename_i hend
        cases h
        have hblanks : ∀ b ∈ (c :: s).takeWhile isBlank, isBlank b = true :=
          fun b hb => List.mem_takeWhile_imp hb
        obtain ⟨rest, hrest⟩ := exists_of_atEndMark hend
        refine ⟨⟨_, hblanks, rfl⟩, ⟨rest, by simpa using hrest⟩, fun rest' => ?_⟩
        generalize (c :: s).takeWhile isBlank = blanks at hblanks
        have htake : (blanks ++ '/' :: '>' :: rest').takeWhile isBlank = blanks :=
          takeWhile_append_stop hblanks isBlank_slash
        rw [List.nil_append, List.append_assoc, List.cons_append, List.cons_append,
          List.nil_append, readSpecs?_of_atEndMark (atEndMark_stop hblanks rest'), htake]
      · rename_i hend
        split at h
        · cases h
        · rename_i hc
          obtain ⟨⟨specs', stop'⟩, hread, he⟩ := Option.map_eq_some_iff.1 h
          cases he
          obtain ⟨hstop, ⟨rest, hs⟩, hlocal⟩ := ih hread
          refine ⟨hstop, ⟨rest, by simp [hs]⟩, fun rest' => ?_⟩
          obtain ⟨blanks, -, rfl⟩ := hstop
          have hnot : atEndMark (c :: (specs' ++ (blanks ++ ['/', '>']) ++ rest')) = false := by
            have hone := atEndMark_append (c :: (specs' ++ blanks)) rest
            have htwo := atEndMark_append (c :: (specs' ++ blanks)) rest'
            simp only [List.cons_append, List.append_assoc, List.nil_append] at hone htwo hs ⊢
            rw [htwo, ← hone, ← hs]
            exact Bool.eq_false_iff.2 hend
          rw [List.cons_append, List.cons_append, readSpecs?_cons hnot hc, hlocal rest']
          rfl

/-! ## Whole directives -/

theorem readTagName?_eq_some {tag : Option (List Char)} {s name rest : List Char}
    (h : readTagName? tag s = some (name, rest)) :
    s = name ++ rest ∧ ∀ rest', rest'.head? = rest.head? →
      readTagName? tag (name ++ rest') = some (name, rest') := by
  cases tag with
  | some tag =>
      obtain ⟨r, hr, he⟩ := Option.map_eq_some_iff.1 h
      cases he
      refine ⟨dropLeading?_eq_some_iff.1 hr, fun rest' _ => ?_⟩
      rw [readTagName?, dropLeading?_eq_some_iff.2 rfl]
      rfl
  | none =>
      cases s with
      | nil => cases h
      | cons c s =>
          rw [readTagName?] at h
          split at h
          · rename_i hc
            cases h
            refine ⟨by simp [List.takeWhile_append_dropWhile], fun rest' hhead => ?_⟩
            have hname : ∀ d ∈ s.takeWhile isNameRest, isNameRest d = true :=
              fun d hd => List.mem_takeWhile_imp hd
            have hstop : rest'.head?.any isNameRest = false := by
              rw [hhead]
              exact head?_dropWhile_any isNameRest s
            rw [List.cons_append, readTagName?, if_pos hc, takeWhile_append_stop hname hstop,
              dropWhile_append_stop hname hstop]
          · cases h

theorem endsTagName_eq (s : List Char) :
    endsTagName s = s.head?.any fun c => isBlank c || c == '/' := by
  cases s <;> rfl

/-- A blank or a tab between the slashes and the tag. -/
def isGap (c : Char) : Bool :=
  c == ' ' || c == '\t'

theorem readDirective?_eq_some_iff {tag : Option (List Char)} {s : List Char} {d : Directive} :
    readDirective? tag s = some d ↔
      ∃ gap stop rest, (∀ c ∈ gap, isGap c = true) ∧
        s = '/' :: '/' :: (gap ++ '<' :: (d.tag ++ rest)) ∧
        readTagName? tag (d.tag ++ rest) = some (d.tag, rest) ∧ endsTagName rest = true ∧
        readSpecs? rest = some (d.specs, stop) ∧
        d.text = '/' :: '/' :: (gap ++ '<' :: (d.tag ++ (d.specs ++ stop))) := by
  constructor
  · intro h
    unfold readDirective? at h
    split at h
    · cases h
    · rename_i u hu
      have hs := dropLeading?_eq_some_iff.1 hu
      split at h
      · rename_i v hv
        have hv : u.dropWhile isGap = '<' :: v := hv
        split at h
        · cases h
        · rename_i name rest hname
          split at h
          · rename_i hends
            obtain ⟨⟨specs, stop⟩, hspecs, rfl⟩ := Option.map_eq_some_iff.1 h
            obtain ⟨rfl, -⟩ := readTagName?_eq_some hname
            refine ⟨u.takeWhile isGap, stop, rest, fun c hc => List.mem_takeWhile_imp hc, ?_,
              hname, hends, hspecs, ?_⟩
            · rw [← hv, List.takeWhile_append_dropWhile, hs]
              rfl
            · simp only [List.cons_append, List.append_assoc, List.nil_append]
              rfl
          · cases h
      · cases h
  · obtain ⟨name, specs, text⟩ := d
    rintro ⟨gap, stop, rest, hgap, rfl, hname, hends, hspecs, htext⟩
    dsimp only at hname hspecs htext ⊢
    have hlead : dropLeading? ['/', '/'] ('/' :: '/' :: (gap ++ '<' :: (name ++ rest))) =
        some (gap ++ '<' :: (name ++ rest)) := dropLeading?_eq_some_iff.2 rfl
    have htake : (gap ++ '<' :: (name ++ rest)).takeWhile (fun c => c == ' ' || c == '\t') = gap :=
      takeWhile_append_stop hgap rfl
    have hdrop : (gap ++ '<' :: (name ++ rest)).dropWhile (fun c => c == ' ' || c == '\t') =
        '<' :: (name ++ rest) := dropWhile_append_stop hgap rfl
    unfold readDirective?
    rw [hlead]
    simp only [htake, hdrop, hname, hends, hspecs]
    simp [htext]

/-- A directive reads the same in front of any text; it starts with a slash and ends with the end
mark. -/
theorem readDirective?_eq_some {tag : Option (List Char)} {s : List Char} {d : Directive}
    (h : readDirective? tag s = some d) :
    (∃ rest, s = d.text ++ rest) ∧ (∀ rest, readDirective? tag (d.text ++ rest) = some d) ∧
      d.text.head? = some '/' ∧ d.text.getLast? = some '>' := by
  obtain ⟨gap, stop, rest, hgap, hs, hname, hends, hspecs, htext⟩ := readDirective?_eq_some_iff.1 h
  obtain ⟨-, hlocalName⟩ := readTagName?_eq_some hname
  obtain ⟨⟨blanks, hblanks, rfl⟩, ⟨tail, rfl⟩, hlocalSpecs⟩ := readSpecs?_eq_some hspecs
  refine ⟨⟨tail, by simp [hs, htext]⟩, fun rest' => ?_, by rw [htext]; rfl, ?_⟩
  · have hhead : (d.specs ++ (blanks ++ ['/', '>']) ++ rest').head? =
        (d.specs ++ (blanks ++ ['/', '>']) ++ tail).head? := by
      cases d.specs <;> cases blanks <;> rfl
    refine readDirective?_eq_some_iff.2 ⟨gap, blanks ++ ['/', '>'],
      d.specs ++ (blanks ++ ['/', '>']) ++ rest', hgap, ?_, hlocalName _ hhead, ?_,
      hlocalSpecs rest', htext⟩
    · simp [htext]
    · rw [endsTagName_eq] at hends ⊢
      rwa [hhead]
  · have hlast : d.text =
        ('/' :: '/' :: (gap ++ '<' :: (d.tag ++ (d.specs ++ (blanks ++ ['/']))))) ++ ['>'] := by
      simp [htext]
    rw [hlast, List.getLast?_concat]

/-! ## The first directive -/

/-- The first directive is read at the first offset at which one can be read. -/
theorem findDirective?_eq_some {tag : Option (List Char)} {s : List Char} {d : Directive}
    (h : findDirective? tag s = some d) :
    ∃ p, readDirective? tag (s.drop p) = some d ∧
      ∀ i < p, readDirective? tag (s.drop i) = none := by
  induction s with
  | nil => cases h
  | cons c s ih =>
      rw [findDirective?] at h
      split at h
      · rename_i d' hd
        cases h
        exact ⟨0, hd, by simp⟩
      · rename_i hnone
        obtain ⟨p, hp, hbefore⟩ := ih h
        refine ⟨p + 1, hp, fun i hi => ?_⟩
        cases i with
        | zero => exact hnone
        | succ i => exact hbefore i (by omega)

theorem findDirective?_append {front : List Char} (h : '/' ∉ front) (tag : Option (List Char))
    (rest : List Char) : findDirective? tag (front ++ rest) = findDirective? tag rest := by
  induction front with
  | nil => rfl
  | cons c front ih =>
      rw [List.mem_cons, not_or] at h
      have hnone : readDirective? tag (c :: (front ++ rest)) = none := by
        rw [readDirective?, dropLeading?, if_neg h.1]
      rw [List.cons_append, findDirective?, hnone]
      exact ih h.2

theorem findDirective?_of_readDirective? {tag : Option (List Char)} {s : List Char}
    {d : Directive} (h : readDirective? tag s = some d) : findDirective? tag s = some d := by
  cases s with
  | nil => cases h
  | cons c s => rw [findDirective?, h]

theorem findFirst?_directive {tag : Option (List Char)} {s : List Char} {d : Directive} {p : Nat}
    (hp : readDirective? tag (s.drop p) = some d)
    (hbefore : ∀ i < p, readDirective? tag (s.drop i) = none) :
    findFirst? d.text s = some (s.take p, s.drop (p + d.text.length)) := by
  obtain ⟨⟨rest, hrest⟩, hlocal, -⟩ := readDirective?_eq_some hp
  have hsplit : s = s.take p ++ d.text ++ s.drop (p + d.text.length) := by
    rw [← List.drop_drop, hrest, List.drop_left, List.append_assoc, ← hrest,
      List.take_append_drop]
  refine findFirst?_eq_some_iff.2 ⟨hsplit, fun b r hb => ?_⟩
  refine Nat.le_of_not_lt fun hlt => ?_
  have hlt' : b.length < p := Nat.lt_of_lt_of_le hlt (by rw [List.length_take]; omega)
  have hnone := hbefore b.length hlt'
  rw [hb, List.append_assoc, List.drop_left, hlocal r] at hnone
  cases hnone

end ElementBundle.Component
