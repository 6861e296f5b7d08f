import ElementBundle.Markup.Template
import ElementBundle.Proofs.Source.Calculus

/-! # Template literals as strings

The scanner reads a template literal as a string between backticks and knows
nothing of substitutions. Literal text is escaped so that it is passed over;
expressions and comments are written as they are, and end the string early if
they hold a backtick that no backslash hides.
-/

namespace ElementBundle.Markup

open ElementBundle.Text ElementBundle.Source

/-! ## Escaping -/

def escapeChar (c : Char) : List Char :=
  if c = '\\' then ['\\', '\\'] else if c = '`' then ['\\', '`'] else [c]

theorem replaceAll_ticks (s : List Char) :
    replaceAll '`' [] ['\\', '`'] (replaceAll '\\' [] ['\\', '\\'] s) = s.flatMap escapeChar := by
  induction s with
  | nil => simp [replaceAll]
  | cons c s ih =>
      rw [List.flatMap_cons, ← ih]
      by_cases hslash : c = '\\'
      · subst hslash
        rw [show '\\' :: s = '\\' :: ([] ++ s) from rfl, replaceAll_leading, List.cons_append,
          List.cons_append, replaceAll_cons_of_ne (by decide), replaceAll_cons_of_ne (by decide)]
        rfl
      · rw [replaceAll_cons_of_ne (Ne.symm hslash)]
        by_cases htick : c = '`'
        · subst htick
          exact replaceAll_leading '`' [] ['\\', '`'] _
        · rw [replaceAll_cons_of_ne (Ne.symm htick), escapeChar, if_neg hslash, if_neg htick]
          rfl

theorem head?_escapeChar {s : List Char} (h : (s.flatMap escapeChar).head? = some '{') :
    s.head? = some '{' := by
  cases s with
  | nil => cases h
  | cons c s =>
      rw [List.flatMap_cons, escapeChar] at h
      split at h
      · cases h
      · split at h
        · cases h
        · exact h

/-- Escaping in one pass is the same as three replacements one after the other. -/
theorem escapeTemplate_eq_replaceAll (s : List Char) :
    escapeTemplate s =
      replaceAll '$' ['{'] ['\\', '$', '{']
        (replaceAll '`' [] ['\\', '`'] (replaceAll '\\' [] ['\\', '\\'] s)) := by
  rw [replaceAll_ticks]
  fun_induction escapeTemplate s with
  | case1 => simp [replaceAll]
  | case2 s ih =>
      rw [ih, List.flatMap_cons, show escapeChar '\\' = ['\\', '\\'] from rfl, List.cons_append,
        List.cons_append, replaceAll_cons_of_ne (by decide), replaceAll_cons_of_ne (by decide)]
      rfl
  | case3 s ih =>
      rw [ih, List.flatMap_cons, show escapeChar '`' = ['\\', '`'] from rfl, List.cons_append,
        List.cons_append, replaceAll_cons_of_ne (by decide), replaceAll_cons_of_ne (by decide)]
      rfl
  | case4 s ih =>
      rw [ih]
      exact (replaceAll_leading '$' ['{'] ['\\', '$', '{'] (s.flatMap escapeChar)).symm
  | case5 c s hslash htick hdollar ih =>
      have hplain : escapeChar c = [c] := by rw [escapeChar, if_neg hslash, if_neg htick]
      have hopen : dropLeading? ['$', '{'] (c :: s.flatMap escapeChar) = none := by
        rw [Option.eq_none_iff_forall_ne_some]
        intro rest hrest
        obtain ⟨hc, hbrace⟩ := List.cons.inj (dropLeading?_eq_some_iff.1 hrest)
        have hhead : s.head? = some '{' := head?_escapeChar (by rw [hbrace]; rfl)
        obtain ⟨s', rfl⟩ := List.head?_eq_some_iff.1 hhead
        exact hdollar s' hc rfl
      rw [ih, List.flatMap_cons, hplain, List.singleton_append, replaceAll_cons hopen]

/-! ## Backticks -/

/-- Whether a text holds a backtick that no backslash hides. -/
def bareTick : List Char → Bool
  | [] => false
  | ['\\'] => false
  | '\\' :: _ :: s => bareTick s
  | c :: s => c == '`' || bareTick s

/-- Whether a part, as it is written into a template literal, ends the literal. -/
def Part.leaks : Part → Bool
  | .text _ => false
  | .expression s | .comment s => bareTick s

theorem bareTick_plain {c : Char} (hc : c ≠ '\\') (s : List Char) :
    bareTick (c :: s) = (c == '`' || bareTick s) := by
  rw [bareTick]
  · exact fun h => absurd h hc
  · exact fun _ _ h => absurd h hc

/-! ## Texts that a literal passes over -/

/-- Reading a literal goes on behind a text as if it had not been there. -/
def Passed (s : List Char) : Prop :=
  ∀ rest, readString '`' (s ++ rest) = (s ++ (readString '`' rest).1, (readString '`' rest).2)

theorem Passed.nil : Passed [] := fun _ => rfl

theorem Passed.append {s t : List Char} (hs : Passed s) (ht : Passed t) : Passed (s ++ t) := by
  intro rest
  rw [List.append_assoc, hs, ht, List.append_assoc]

theorem Passed.escape (c : Char) {s : List Char} (hs : Passed s) : Passed ('\\' :: c :: s) := by
  intro rest
  rw [List.cons_append, List.cons_append, readString_escape, hs]
  rfl

theorem Passed.plain {c : Char} (hc : c ≠ '\\') (hq : c ≠ '`') {s : List Char} (hs : Passed s) :
    Passed (c :: s) := by
  intro rest
  rw [List.cons_append, readString_plain hc, if_neg hq, hs]
  rfl

theorem passed_escapeTemplate (s : List Char) : Passed (escapeTemplate s) := by
  fun_induction escapeTemplate s with
  | case1 => exact .nil
  | case2 s ih => exact .escape '\\' ih
  | case3 s ih => exact .escape '`' ih
  | case4 s ih => exact .escape '$' (.plain (by decide) (by decide) ih)
  | case5 c s hslash htick _ ih => exact .plain hslash htick ih

/-- A backslash at the end of a text hides the character that is put after it. -/
theorem passed_append_singleton {s : List Char} (h : bareTick s = false) {c : Char}
    (hc : c ≠ '\\') (hq : c ≠ '`') : Passed (s ++ [c]) := by
  induction s using escapedInduction with
  | nil => exact .plain hc hq .nil
  | backslash => exact .escape c .nil
  | escape d s ih => exact .escape d (ih h)
  | plain d s hd ih =>
      rw [bareTick_plain hd, Bool.or_eq_false_iff, beq_eq_false_iff_ne] at h
      exact .plain hd h.1 (ih h.2)

theorem passed_render {p : Part} (h : p.leaks = false) : Passed p.render := by
  cases p with
  | text s => exact passed_escapeTemplate s
  | expression s =>
      have hs : Passed (s ++ ['}']) := passed_append_singleton h (by decide) (by decide)
      exact .plain (by decide) (by decide) (.plain (by decide) (by decide) hs)
  | comment s =>
      have hs : Passed (s ++ ['-']) := passed_append_singleton h (by decide) (by decide)
      have hstart : Passed ['<', '!', '-', '-'] := by
        repeat first | exact .nil | refine .plain (by decide) (by decide) ?_
      have hstop : Passed ['-', '>'] := by
        repeat first | exact .nil | refine .plain (by decide) (by decide) ?_
      have happend : (Part.comment s).render = ['<', '!', '-', '-'] ++ ((s ++ ['-']) ++ ['-', '>']) := by
        simp [Part.render]
      rw [happend]
      exact hstart.append (hs.append hstop)

theorem passed_renderParts {parts : List Part} (h : ∀ p ∈ parts, p.leaks = false) :
    Passed (renderParts parts) := by
  induction parts with
  | nil => exact .nil
  | cons p parts ih =>
      have hparts := ih fun q hq => h q (List.mem_cons_of_mem p hq)
      exact (passed_render (h p List.mem_cons_self)).append hparts

/-! ## Literals that are left early -/

theorem exists_of_bareTick {s : List Char} (h : bareTick s = true) :
    ∃ a b, s = a ++ '`' :: b ∧ Passed a := by
  induction s using escapedInduction with
  | nil => cases h
  | backslash => cases h
  | escape c s ih =>
      obtain ⟨a, b, rfl, ha⟩ := ih h
      exact ⟨'\\' :: c :: a, b, rfl, ha.escape c⟩
  | plain c s hc ih =>
      by_cases hq : c = '`'
      · exact ⟨[], s, by rw [hq]; rfl, .nil⟩
      · rw [bareTick_plain hc, beq_false_of_ne hq, Bool.false_or] at h
        obtain ⟨a, b, rfl, ha⟩ := ih h
        exact ⟨c :: a, b, rfl, ha.plain hc hq⟩

theorem exists_of_leaks {p : Part} (h : p.leaks = true) :
    ∃ a b, p.render = a ++ '`' :: b ∧ Passed a := by
  cases p with
  | text s => cases h
  | expression s =>
      obtain ⟨a, b, rfl, ha⟩ := exists_of_bareTick h
      refine ⟨'$' :: '{' :: a, b ++ ['}'], by simp [Part.render], ?_⟩
      exact .plain (by decide) (by decide) (.plain (by decide) (by decide) ha)
  | comment s =>
      obtain ⟨a, b, rfl, ha⟩ := exists_of_bareTick h
      refine ⟨'<' :: '!' :: '-' :: '-' :: a, b ++ ['-', '-', '>'], by simp [Part.render], ?_⟩
      repeat first | exact ha | refine .plain (by decide) (by decide) ?_

/-- Parts of which one leaks hold a bare backtick behind a text that is passed over. -/
theorem exists_of_mem_leaks {parts : List Part} (h : ∃ p ∈ parts, p.leaks = true) :
    ∃ a b, renderParts parts = a ++ '`' :: b ∧ Passed a := by
  induction parts with
  | nil => simp at h
  | cons p parts ih =>
      cases hp : p.leaks with
      | true =>
          obtain ⟨a, b, hab, ha⟩ := exists_of_leaks hp
          exact ⟨a, b ++ renderParts parts, by simp [renderParts, hab], ha⟩
      | false =>
          obtain ⟨q, hq, hleak⟩ := h
          rcases List.mem_cons.1 hq with rfl | hq
          · rw [hp] at hleak
            cases hleak
          · obtain ⟨a, b, hab, ha⟩ := ih ⟨q, hq, hleak⟩
            refine ⟨p.render ++ a, b, ?_, (passed_render hp).append ha⟩
            rw [List.append_assoc, ← hab]
            rfl

theorem Passed.readString_tick {s : List Char} (hs : Passed s) (rest : List Char) :
    readString '`' (s ++ '`' :: rest) = (s ++ ['`'], true, rest) := by
  rw [hs, readString_plain (by decide), if_pos rfl]

end ElementBundle.Markup
