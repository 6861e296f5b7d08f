import ElementBundle.Markup.Template
import ElementBundle.Proofs.Markup.Attributes
import ElementBundle.Proofs.Source.Simulation
import Mathlib.Order.Bounds.Basic

/-! # Extent of an expression

An expression ends behind the first closing brace outside of strings up to which
as many braces are opened as closed. Strings are told character by character
(`Quoting`), without a look at the character behind a backslash. Where the
expression ends depends on nothing behind it, so it ends alike in the content of
a block, in the text of a tag and in a template literal.
-/

namespace ElementBundle.Markup

open ElementBundle.Text ElementBundle.Source

/-! ## Strings, character by character -/

/-- What a character stands in: no string, a string, or a string behind a backslash. -/
inductive Quoting where
  | outside
  | inside (q : Char)
  | escaped (q : Char)
  deriving DecidableEq, Repr

/-- What the character behind another one stands in. -/
def Quoting.next : Quoting → Char → Quoting
  | .outside, c => if isQuote c then .inside c else .outside
  | .inside q, c => if c = '\\' then .escaped q else if c = q then .outside else .inside q
  | .escaped q, _ => .inside q

/-- The characters of a text that stand in no string. -/
def unquoted : Quoting → List Char → List Char
  | _, [] => []
  | k, c :: s => if k = .outside then c :: unquoted (k.next c) s else unquoted (k.next c) s

/-- A text ends with a closing brace that stands in no string. With some braces open in front of it,
as many are then opened as closed outside of strings. -/
structure ClosesBraces (depth : Int) (k : Quoting) (u : List Char) : Prop where
  brace : ∃ w, u = w ++ ['}'] ∧ w.foldl Quoting.next k = .outside
  even : depth + (unquoted k u).count '{' = (unquoted k u).count '}'

/-- The expression that opens at an offset is closed in front of another one. -/
structure ClosedAt (text : List Char) (i e : Nat) : Prop where
  after : i < e
  within : e ≤ text.length
  closes : ClosesBraces 0 .outside (text.extract i e)

/-- The offset behind the expression that opens at an offset. -/
def expressionStop? (text : List Char) (i : Nat) : Option Nat :=
  match readExpression 1 none (text.drop (i + 1)) with
  | .ok (inside, _) => some (i + inside.length + 2)
  | .error _ => none

/-- By how much a character changes the number of open braces. -/
def Quoting.weight (k : Quoting) (c : Char) : Int :=
  if k = .outside then (if c = '{' then 1 else if c = '}' then -1 else 0) else 0

/-- How many more braces a text opens than it closes. -/
def surplus (k : Quoting) (s : List Char) : Int :=
  (unquoted k s).count '{' - (unquoted k s).count '}'

theorem surplus_cons (k : Quoting) (c : Char) (s : List Char) :
    surplus k (c :: s) = k.weight c + surplus (k.next c) s := by
  unfold surplus Quoting.weight
  rw [unquoted]
  by_cases hk : k = .outside
  · rw [if_pos hk, if_pos hk, List.count_cons, List.count_cons]
    by_cases hopen : c = '{'
    · subst hopen
      simp
      omega
    · by_cases hclose : c = '}'
      · subst hclose
        simp
        omega
      · simp [hopen, hclose]
  · rw [if_neg hk, if_neg hk, Int.zero_add]

theorem closesBraces_iff {depth : Int} {k : Quoting} {u : List Char} :
    ClosesBraces depth k u ↔
      (∃ w, u = w ++ ['}'] ∧ w.foldl Quoting.next k = .outside) ∧ depth + surplus k u = 0 := by
  unfold surplus
  constructor
  · rintro ⟨hbrace, heven⟩
    exact ⟨hbrace, by omega⟩
  · rintro ⟨hbrace, hzero⟩
    exact ⟨hbrace, by omega⟩

/-- Only a brace in no string, in front of which one is open, closes all braces by itself. -/
theorem closesBraces_cons_iff {depth : Int} {k : Quoting} {c : Char} {u : List Char} :
    ClosesBraces depth k (c :: u) ↔
      (u = [] ∧ c = '}' ∧ k = .outside ∧ depth = 1) ∨
        ClosesBraces (depth + k.weight c) (k.next c) u := by
  rw [closesBraces_iff, closesBraces_iff, surplus_cons, Int.add_assoc]
  constructor
  · rintro ⟨⟨w, hw, hout⟩, hzero⟩
    cases w with
    | nil =>
        obtain ⟨rfl, rfl⟩ := List.cons.inj hw
        have hk : k = .outside := hout
        subst hk
        have hone : depth + (-1 + 0) = 0 := hzero
        exact .inl ⟨rfl, rfl, rfl, by omega⟩
    | cons d w =>
        obtain ⟨rfl, rfl⟩ := List.cons.inj hw
        exact .inr ⟨⟨w, rfl, hout⟩, hzero⟩
  · rintro (⟨rfl, rfl, rfl, rfl⟩ | ⟨⟨w, rfl, hout⟩, hzero⟩)
    · exact ⟨⟨[], rfl, rfl⟩, rfl⟩
    · exact ⟨⟨c :: w, rfl, hout⟩, hzero⟩

theorem not_closesBraces_nil {depth : Int} {k : Quoting} : ¬ ClosesBraces depth k [] := by
  rintro ⟨⟨w, hw, -⟩, -⟩
  exact absurd hw (by simp)

/-! ## The reader of expressions -/

def StaysOpen (depth : Int) (k : Quoting) (s : List Char) : Prop :=
  ∀ u, u <+: s → ¬ ClosesBraces depth k u

theorem StaysOpen.nil {depth : Int} {k : Quoting} : StaysOpen depth k [] := by
  intro u hu
  rw [List.prefix_nil.1 hu]
  exact not_closesBraces_nil

theorem StaysOpen.cons {depth : Int} {k : Quoting} {c : Char} {s : List Char}
    (h : StaysOpen (depth + k.weight c) (k.next c) s)
    (hc : ¬ (c = '}' ∧ k = .outside ∧ depth = 1)) : StaysOpen depth k (c :: s) := by
  intro u hu hcloses
  cases u with
  | nil => exact not_closesBraces_nil hcloses
  | cons d u =>
      obtain ⟨rfl, htail⟩ := List.cons_prefix_cons.1 hu
      rcases closesBraces_cons_iff.1 hcloses with ⟨-, hclosed⟩ | hlater
      · exact hc hclosed
      · exact h u htail hlater

/-- An answer of the reader: the text up to the first brace that closes all, or the number of braces
that stay open. -/
def Answers (depth : Int) (k : Quoting) (s : List Char) :
    Except Nat (List Char × List Char) → Prop
  | .ok (inside, _) => ClosesBraces depth k (inside ++ ['}']) ∧ StaysOpen depth k inside
  | .error braces => StaysOpen depth k s ∧ (braces : Int) = depth + surplus k s

theorem Answers.cons {depth next : Int} {k after : Quoting} {c : Char} {s : List Char}
    {x : Except Nat (List Char × List Char)} (h : Answers next after s x)
    (hnext : next = depth + k.weight c) (hafter : after = k.next c)
    (hc : ¬ (c = '}' ∧ k = .outside ∧ depth = 1)) :
    Answers depth k (c :: s) (x.map fun (a, r) => (c :: a, r)) := by
  subst hnext hafter
  cases x with
  | error braces =>
      refine ⟨h.1.cons hc, ?_⟩
      rw [surplus_cons, ← Int.add_assoc]
      exact h.2
  | ok x => exact ⟨closesBraces_cons_iff.2 (.inr h.1), h.2.cons hc⟩

def Quoting.ofQuote : Option Char → Quoting
  | none => .outside
  | some q => .inside q

theorem Answers.quoted {depth : Int} {k after : Quoting} {c : Char} {s : List Char}
    {x : Except Nat (List Char × List Char)} (h : Answers depth after s x) (hk : k ≠ .outside)
    (hafter : after = k.next c) :
    Answers depth k (c :: s) (x.map fun (a, r) => (c :: a, r)) :=
  h.cons (by simp [Quoting.weight, hk]) hafter fun hclosed => hk hclosed.2.1

/-- The reader of expressions finds the first brace that closes all. -/
theorem answers_readExpression {depth : Nat} (hdepth : 0 < depth) (quote : Option Char)
    (s : List Char) : Answers depth (.ofQuote quote) s (readExpression depth quote s) := by
  have hnil : ∀ (depth : Nat) (k : Quoting), Answers depth k [] (.error depth) := by
    intro depth k
    exact ⟨.nil, by simp [surplus, unquoted]⟩
  fun_induction readExpression depth quote s with
  | case1 depth quote => exact hnil depth _
  | case2 depth q => exact (hnil depth (.escaped q)).quoted (k := .inside q) (c := '\\') (by simp) rfl
  | case3 depth q c s ih =>
      have hescaped := (ih hdepth).quoted (k := .escaped q) (c := c) (by simp) rfl
      have hslash := hescaped.quoted (k := .inside q) (c := '\\') (by simp) rfl
      show Answers depth (.inside q) _ _
      cases hread : readExpression depth (some q) s with
      | error braces => simpa [hread, Except.map] using hslash
      | ok x => simpa [hread, Except.map] using hslash
  | case4 depth q c s hlast hescape ih =>
      have hc : c ≠ '\\' := by
        rintro rfl
        cases s with
        | nil => exact hlast rfl rfl
        | cons d s => exact hescape d s rfl rfl
      refine (ih hdepth).quoted (k := .inside q) (by simp) ?_
      rw [Quoting.next, if_neg hc]
      by_cases hq : c = q
      · rw [if_pos hq, if_pos hq, Quoting.ofQuote]
      · rw [if_neg hq, if_neg hq, Quoting.ofQuote]
  | case5 depth c s hc ih =>
      have hbrace : c ≠ '{' ∧ c ≠ '}' := by
        constructor <;> rintro rfl <;> exact absurd hc (by decide)
      refine (ih hdepth).cons ?_ ?_ fun hclosed => hbrace.2 hclosed.1
      · simp [Quoting.weight, Quoting.ofQuote, hbrace]
      · simp [Quoting.next, Quoting.ofQuote, hc]
  | case6 depth s hc ih => exact (ih (Nat.succ_pos depth)).cons rfl rfl (by simp)
  | case7 depth s hd _ _ =>
      obtain rfl : depth = 1 := by omega
      exact ⟨closesBraces_cons_iff.2 (.inl ⟨rfl, rfl, rfl, rfl⟩), .nil⟩
  | case8 depth s hd _ _ ih =>
      refine (ih (by omega)).cons ?_ rfl fun hclosed => ?_
      · have hweight : (Quoting.outside).weight '}' = -1 := rfl
        simp only [Quoting.ofQuote, hweight]
        omega
      · omega
  | case9 depth c s hc hb hb' ih =>
      refine (ih hdepth).cons ?_ ?_ fun hclosed => hb' hclosed.1
      · simp [Quoting.weight, hb, hb']
      · simp [Quoting.next, Quoting.ofQuote, hc]

/-! ## Offsets -/

theorem drop_eq_brace_cons {text : List Char} {i : Nat} (hopen : text[i]? = some '{') :
    text.drop i = '{' :: text.drop (i + 1) := by
  obtain ⟨hlt, hbrace⟩ := List.getElem?_eq_some_iff.1 hopen
  rw [List.drop_eq_getElem_cons hlt, hbrace]

theorem closedAt_iff {text : List Char} {i e : Nat} (hopen : text[i]? = some '{') :
    ClosedAt text i e ↔ ∃ n, e = i + 1 + n ∧ n ≤ (text.drop (i + 1)).length ∧
      ClosesBraces 1 .outside ((text.drop (i + 1)).take n) := by
  have hlt := (List.getElem?_eq_some_iff.1 hopen).1
  have hslice : ∀ n, text.extract i (i + 1 + n) = '{' :: (text.drop (i + 1)).take n := by
    intro n
    rw [List.extract_eq_take_drop, drop_eq_brace_cons hopen, Nat.add_right_comm, Nat.add_assoc,
      Nat.add_sub_cancel_left, List.take_succ_cons]
  have hcloses : ∀ u, ClosesBraces 0 .outside ('{' :: u) ↔ ClosesBraces 1 .outside u := by
    intro u
    rw [closesBraces_cons_iff]
    simp [Quoting.weight, Quoting.next, isQuote]
  constructor
  · rintro ⟨hafter, hwithin, heven⟩
    obtain ⟨n, rfl⟩ := Nat.exists_eq_add_of_le (Nat.succ_le_of_lt hafter)
    rw [Nat.succ_eq_add_one, hslice, hcloses] at heven
    refine ⟨n, rfl, ?_, heven⟩
    rw [List.length_drop]
    omega
  · rintro ⟨n, rfl, hn, heven⟩
    rw [List.length_drop] at hn
    refine ⟨by omega, by omega, ?_⟩
    rwa [hslice, hcloses]

theorem isLeast_of_readExpression {text inside rest : List Char} {i : Nat}
    (hopen : text[i]? = some '{')
    (hread : readExpression 1 none (text.drop (i + 1)) = .ok (inside, rest)) :
    IsLeast {e | ClosedAt text i e} (i + inside.length + 2) := by
  have hanswer := answers_readExpression Nat.one_pos none (text.drop (i + 1))
  rw [hread] at hanswer
  obtain ⟨hcloses, hstays⟩ := hanswer
  have hsource := readExpression_eq_ok hread
  constructor
  · refine (closedAt_iff hopen).2 ⟨inside.length + 1, by omega, ?_, ?_⟩
    · rw [hsource, List.length_append, List.length_cons]
      omega
    · rw [hsource, List.take_length_add_append, List.take_succ_cons, List.take_zero]
      exact hcloses
  · intro e he
    obtain ⟨n, rfl, -, hn⟩ := (closedAt_iff hopen).1 he
    by_contra hlt
    rw [hsource, List.take_append_of_le_length (by omega)] at hn
    exact hstays _ (List.take_prefix n inside) hn

theorem not_closedAt_of_readExpression {text : List Char} {i braces : Nat}
    (hopen : text[i]? = some '{')
    (hread : readExpression 1 none (text.drop (i + 1)) = .error braces) (e : Nat) :
    ¬ ClosedAt text i e := by
  have hanswer := answers_readExpression Nat.one_pos none (text.drop (i + 1))
  rw [hread] at hanswer
  intro he
  obtain ⟨n, -, -, hn⟩ := (closedAt_iff hopen).1 he
  exact hanswer.1 _ (List.take_prefix n _) hn

/-- An expression is read up to the least offset at which it is closed. -/
theorem expressionStop?_eq_some_iff {text : List Char} {i e : Nat} (hopen : text[i]? = some '{') :
    expressionStop? text i = some e ↔ IsLeast {e | ClosedAt text i e} e := by
  unfold expressionStop?
  split
  · rename_i inside rest hread
    have hleast := isLeast_of_readExpression hopen hread
    rw [Option.some.injEq]
    exact ⟨fun he => he ▸ hleast, fun he => hleast.unique he⟩
  · rename_i braces hread
    have hnone := not_closedAt_of_readExpression hopen hread e
    exact ⟨fun he => (by cases he), fun he => absurd he.1 hnone⟩

theorem expressionStop?_eq_none_iff {text : List Char} {i : Nat} (hopen : text[i]? = some '{') :
    expressionStop? text i = none ↔ ∀ e, ¬ ClosedAt text i e := by
  unfold expressionStop?
  split
  · rename_i inside rest hread
    have hleast := isLeast_of_readExpression hopen hread
    exact ⟨fun he => (by cases he), fun he => absurd hleast.1 (he _)⟩
  · rename_i braces hread
    exact ⟨fun _ => not_closedAt_of_readExpression hopen hread, fun _ => rfl⟩

theorem exists_readExpression_of_some {text : List Char} {i e : Nat}
    (h : expressionStop? text i = some e) :
    ∃ inside, readExpression 1 none (text.drop (i + 1)) = .ok (inside, text.drop e) ∧
      e = i + inside.length + 2 := by
  unfold expressionStop? at h
  split at h
  · rename_i inside rest hread
    cases h
    have hrest : text.drop (i + inside.length + 2) = rest := by
      rw [show i + inside.length + 2 = (i + 1) + (inside.length + 1) by omega, ← List.drop_drop,
        readExpression_eq_ok hread, List.drop_length_add_append]
      rfl
    exact ⟨inside, by rw [hrest, hread], rfl⟩
  · cases h

theorem exists_readExpression_of_none {text : List Char} {i : Nat} (hopen : text[i]? = some '{')
    (h : expressionStop? text i = none) :
    ∃ braces : Nat, readExpression 1 none (text.drop (i + 1)) = .error braces ∧
      (braces : Int) = surplus .outside (text.drop i) := by
  have hanswer := answers_readExpression Nat.one_pos none (text.drop (i + 1))
  unfold expressionStop? at h
  split at h
  · cases h
  · rename_i braces hread
    rw [hread] at hanswer
    refine ⟨braces, hread, ?_⟩
    rw [drop_eq_brace_cons hopen, surplus_cons]
    exact hanswer.2

theorem expressionStop?_of_drop_eq {text inside rest s : List Char} {i : Nat}
    (hread : readExpression 1 none s = .ok (inside, rest)) (more : List Char)
    (htext : text.drop i = '{' :: inside ++ '}' :: more) :
    expressionStop? text i = some (i + (inside.length + 2)) := by
  have htail : text.drop (i + 1) = inside ++ '}' :: more := by
    rw [← List.drop_drop, htext]
    rfl
  rw [expressionStop?, htail, readExpression_of_ok hread]
  exact congrArg some (Nat.add_assoc i inside.length 2)

/-! ## Where expressions are read -/

/-- A comment stands behind the brace of an expression. -/
def opensComment (s : List Char) : Bool :=
  ((dropLeading? ['/', '*'] s).bind (findFirst? ['*', '/', '}'])).isSome

theorem readItem_expression {s : List Char} (h : opensComment s = false) (afterColon : Bool) :
    readItem afterColon '{' s =
      (readExpression 1 none s).map fun (inside, rest) => { item := .expression inside, rest } := by
  rw [opensComment, Option.isSome_eq_false_iff, Option.isNone_iff_eq_none] at h
  unfold readItem
  rw [if_pos rfl, readBraced, h]

/-- In the content of a block, in the text of a tag and in a template literal, an expression is the
text between its brace and the one that closes it. -/
structure ReadAlike (inside : List Char) : Prop where
  content : ∀ afterColon more, opensComment (inside ++ '}' :: more) = false →
    readItem afterColon '{' (inside ++ '}' :: more) =
      .ok { item := .expression inside, rest := more }
  tag : ∀ more, tagParts ('{' :: inside ++ '}' :: more) =
    (tagParts more).map (Part.push (.expression inside))
  literal : ∀ front back, expressionStop? (renderParts (front ++ .expression inside :: back))
    ((renderParts front).length + 1) =
      some ((renderParts front).length + 1 + (inside.length + 2))

theorem readAlike {s inside rest : List Char}
    (hread : readExpression 1 none s = .ok (inside, rest)) : ReadAlike inside := by
  constructor
  · intro afterColon more hplain
    rw [readItem_expression hplain, readExpression_of_ok hread]
    rfl
  · intro more
    exact tagParts_brace (readExpression_of_ok hread more)
  · intro front back
    have hliteral : renderParts (front ++ .expression inside :: back) =
        renderParts front ++ ['$'] ++ ('{' :: inside ++ '}' :: renderParts back) := by
      simp [renderParts, Part.render]
    refine expressionStop?_of_drop_eq hread (renderParts back) ?_
    rw [hliteral]
    exact List.drop_left' (by simp)

/-- An expression that is not closed stops the reader of contents, outside of strings, and the reader
of tags. -/
structure StopsReaders (s : List Char) (braces : Nat) : Prop where
  content : ∀ depth afterColon mode, opensComment s = false →
    readContent depth afterColon mode ('{' :: s) =
      .error ⟨.expression ('{' :: s),
        { mode := .code, nesting := some depth, expressionDepth := braces }⟩
  tag : tagParts ('{' :: s) = .error braces

theorem stopsReaders {s : List Char} {braces : Nat}
    (hread : readExpression 1 none s = .error braces) : StopsReaders s braces := by
  constructor
  · intro depth afterColon mode hplain
    have hitem := readItem_expression hplain afterColon
    rw [hread] at hitem
    rw [readContent]
    split
    · rename_i found hfound
      cases hfound.symm.trans hitem
      rfl
    · rename_i hfound
      cases hfound.symm.trans hitem
  · rw [tagParts, if_pos rfl]
    split
    · rename_i found hfound
      cases hfound.symm.trans hread
      rfl
    · rename_i hfound
      cases hfound.symm.trans hread

/-- From a brace on, an expression is read up to the least offset at which it is closed, with no
brace and no string left open, and its end depends on nothing but its text, in the content of a
block as in a tag or in a template literal. Where it is not closed, no offset closes it, and no
string is left open either. -/
theorem expression_extent {text : List Char} {i : Nat} (hopen : text[i]? = some '{') :
    (∀ e, expressionStop? text i = some e ↔ IsLeast {e | ClosedAt text i e} e) ∧
    (expressionStop? text i = none ↔ ∀ e, ¬ ClosedAt text i e) ∧
    (∀ e, expressionStop? text i = some e →
      (∀ (markup : Bool) (g : Registers) (outer : Option (List Char)), g.mode = .code →
        Reaches markup ⟨.expression, { g with braces := 0 }, text.drop i, outer⟩
          ⟨if outer.isNone then .content false else .tag, { g with mode := .code, braces := 0 },
            text.drop e, outer⟩) ∧
      (∀ other j, text.extract i e <+: other.drop j →
        expressionStop? other j = some (j + (e - i))) ∧
      ∃ inside, text.extract i e = '{' :: inside ++ ['}'] ∧ ReadAlike inside) ∧
    (expressionStop? text i = none → ∃ braces : Nat,
      (braces : Int) = surplus .outside (text.drop i) ∧
      (∀ (markup : Bool) (g : Registers) (outer : Option (List Char)), g.mode = .code →
        Reaches markup ⟨.expression, { g with braces := 0 }, text.drop i, outer⟩
          ⟨.failed, { g with mode := .code, braces := braces }, [], outer⟩) ∧
      StopsReaders (text.drop (i + 1)) braces) := by
  have hdrop := drop_eq_brace_cons hopen
  have hreach : ∀ (markup : Bool) (g : Registers) (outer : Option (List Char)), g.mode = .code →
      Reaches markup ⟨.expression, { g with braces := 0 }, text.drop i, outer⟩
        (expressionEnd { g with braces := 0 } outer
          (readExpression 1 none (text.drop (i + 1)))) := by
    intro markup g outer hmode
    rw [hdrop]
    exact reaches_braced (g := { g with braces := 0 }) hmode rfl outer (text.drop (i + 1))
  refine ⟨fun e => expressionStop?_eq_some_iff hopen, expressionStop?_eq_none_iff hopen, ?_, ?_⟩
  · intro e he
    obtain ⟨inside, hread, rfl⟩ := exists_readExpression_of_some he
    have hslice : text.extract i (i + inside.length + 2) = '{' :: inside ++ ['}'] := by
      rw [List.extract_eq_take_drop, hdrop, readExpression_eq_ok hread, Nat.add_assoc,
        Nat.add_sub_cancel_left, List.take_succ_cons, List.take_length_add_append]
      rfl
    refine ⟨fun markup g outer hmode => ?_, ?_, inside, hslice, readAlike hread⟩
    · have hend := hreach markup g outer hmode
      rw [hread] at hend
      exact hend
    · rintro other j ⟨back, hback⟩
      rw [hslice] at hback
      rw [expressionStop?_of_drop_eq hread back (by rw [← hback]; simp)]
      congr 2
      omega
  · intro hnone
    obtain ⟨braces, hread, hbraces⟩ := exists_readExpression_of_none hopen hnone
    refine ⟨braces, hbraces, fun markup g outer hmode => ?_, stopsReaders hread⟩
    have hend := hreach markup g outer hmode
    rw [hread] at hend
    exact hend

/-- A quote behind a backslash, a brace in a string and a brace in braces. -/
theorem expression_extent_strings :
    let text := "a\x7b\"\\\"\x7d\" + \x7b\x7d`\x7d`\x7d\x7d".toList
    text[1]? = some '{' ∧ expressionStop? text 1 = some 16 ∧
      IsLeast {e | ClosedAt text 1 e} 16 := by
  intro text
  have hopen : text[1]? = some '{' := by decide
  have hstop : expressionStop? text 1 = some 16 := by decide
  exact ⟨hopen, hstop, ((expression_extent hopen).1 16).1 hstop⟩

end ElementBundle.Markup
