import ElementBundle.Proofs.Component.Located
import ElementBundle.Proofs.Component.Origin
import Mathlib.Order.Bounds.Basic

/-! # Extent of a body

A body starts at the least offset at which the code of the source shows a class,
and it ends behind the least closing brace in code up to which as many braces
are opened as closed. Both are said offset by offset (`ClassAt`, `EvenAt`),
without a run over the tokens; a body may be looked for from any offset, inside
the source or not.
-/

namespace ElementBundle.Component

open ElementBundle.Text ElementBundle.Source ElementBundle.Markup

/-! ## Code, offset by offset -/

/-- The character of code at an offset of a source. -/
def codeAt? (source : List Char) (i : Nat) : Option Char :=
  if (plainTokens source).any fun p => p.token.isCode && decide (p.offset ≤ i ∧ i < p.stop) then
    source[i]?
  else none

/-- How often a character stands in code between two offsets. -/
def codeCount (source : List Char) (c : Char) (start stop : Nat) : Nat :=
  (List.range' start (stop - start)).countP fun i => codeAt? source i == some c

/-- A closing brace in code ends at an offset, and from the start up to there as many braces of code
open as close. -/
structure EvenAt (source : List Char) (start : Int) (stop : Nat) : Prop where
  brace : ∃ i : Nat, stop = i + 1 ∧ max start 0 ≤ i ∧ codeAt? source i = some '}'
  even : codeCount source '{' (max start 0).toNat stop = codeCount source '}' (max start 0).toNat stop

/-- The keyword of a class, blanks and the first character of a name. -/
def ClassHead (head : List Char) : Prop :=
  ∃ blanks c, head = classWord ++ blanks ++ [c] ∧ blanks ≠ [] ∧
    (∀ b ∈ blanks, isBlank b = true) ∧ isIdentStart c = true

/-- The head of a class stands at an offset, behind a boundary of words and wholly in one run of
code. -/
def ClassAt (source : List Char) (k : Nat) : Prop :=
  ∃ p ∈ plainTokens source, ∃ head, p.token.isCode = true ∧ ClassHead head ∧ p.offset ≤ k ∧
    k + head.length ≤ p.stop ∧ head <+: source.drop k ∧
    atBoundary (source.take k).getLast? = true

/-- A search ends at the least number with a property, and without one only if there is none. -/
def Finds (P : Nat → Prop) : Option Nat → Prop
  | some k => IsLeast {e | P e} k
  | none => ∀ e, ¬ P e

theorem Finds.eq_some_iff {P : Nat → Prop} {found : Option Nat} (h : Finds P found) {k : Nat} :
    found = some k ↔ IsLeast {e | P e} k := by
  cases found with
  | none =>
      refine ⟨fun hk => (by cases hk), fun hk => ?_⟩
      exact absurd hk.1 (h k)
  | some i =>
      rw [Option.some.injEq]
      exact ⟨fun hk => hk ▸ h, fun hk => IsLeast.unique h hk⟩

theorem Finds.eq_none_iff {P : Nat → Prop} {found : Option Nat} (h : Finds P found) :
    found = none ↔ ∀ e, ¬ P e := by
  cases found with
  | none => exact ⟨fun _ => h, fun _ => rfl⟩
  | some i =>
      refine ⟨fun hk => (by cases hk), fun hk => ?_⟩
      exact absurd h.1 (hk i)

theorem Finds.congr {P Q : Nat → Prop} (hiff : ∀ e, P e ↔ Q e) {found : Option Nat}
    (h : Finds P found) : Finds Q found := by
  rwa [← funext fun e => propext (hiff e)]

theorem plainTokens_eq {source : List Char} {ts : List Token} {final : Mode}
    (h : Reads false .code source ts final) : plainTokens source = place ts := by
  have hscan : scan source false = .ok ⟨ts, { mode := final }⟩ := scan_eq_ok_iff.2 ⟨final, h, rfl⟩
  rw [plainTokens, hscan]

theorem exists_of_mem_place {ts : List Token} {p : Placed} (h : p ∈ place ts) :
    ∃ pre post, ts = pre ++ p.token :: post ∧ p.offset = (pre.flatMap Token.text).length := by
  obtain ⟨k, hk⟩ := List.mem_iff_getElem?.1 h
  rw [place, getElem?_placeFrom, Option.map_eq_some_iff] at hk
  obtain ⟨t, ht, rfl⟩ := hk
  obtain ⟨hlt, rfl⟩ := List.getElem?_eq_some_iff.1 ht
  refine ⟨ts.take k, ts.drop (k + 1), ?_, Nat.zero_add _⟩
  rw [← List.drop_eq_getElem_cons hlt, List.take_append_drop]

theorem exists_mem_place (pre : List Token) (t : Token) (post : List Token) :
    ∃ line, (⟨t, (pre.flatMap Token.text).length, line⟩ : Placed) ∈ place (pre ++ t :: post) := by
  refine ⟨1 + newlines (pre.flatMap Token.text), List.mem_iff_getElem?.2 ⟨pre.length, ?_⟩⟩
  rw [place, getElem?_placeFrom]
  simp

/-- Runs of code show the characters that they hold, at their offsets. -/
theorem codeAt?_eq_some_iff {source : List Char} {i : Nat} {c : Char} :
    codeAt? source i = some c ↔ (i, c) ∈ codeChars source := by
  obtain ⟨ts, final, hreads⟩ := exists_reads_plain .code source
  have hsource := hreads.flatMap_text
  rw [codeChars_eq_charsFrom hreads, codeAt?, plainTokens_eq hreads]
  constructor
  · intro h
    split at h
    · rename_i hany
      obtain ⟨p, hp, hcode⟩ := List.any_eq_true.1 hany
      rw [Bool.and_eq_true, decide_eq_true_eq, Placed.stop] at hcode
      obtain ⟨hcode, hle, hlt⟩ := hcode
      obtain ⟨pre, post, rfl, hoffset⟩ := exists_of_mem_place hp
      cases htoken : p.token with
      | code text =>
          rw [htoken] at hlt hsource
          have hlt : i < p.offset + text.length := hlt
          have hget : text[i - p.offset]? = some c := by
            rw [← hsource, List.flatMap_append, List.flatMap_cons, Token.text,
              List.getElem?_append_right (by omega), ← hoffset,
              List.getElem?_append_left (by omega)] at h
            exact h
          refine List.mem_flatMap.2 ⟨(p.offset, text), ?_, mem_enumerateFrom.2 ⟨_, hget, by omega⟩⟩
          have hrun := mem_runsFrom 0 pre text post
          rwa [Nat.zero_add, ← hoffset] at hrun
      | _ =>
          rw [htoken] at hcode
          cases hcode
    · cases h
  · intro h
    have hget := getElem?_of_mem_charsFrom h
    obtain ⟨⟨offset, text⟩, hrun, hmem⟩ := List.mem_flatMap.1 h
    obtain ⟨pre, post, rfl, rfl⟩ := exists_of_mem_runsFrom hrun
    obtain ⟨k, hk, rfl⟩ := mem_enumerateFrom.1 hmem
    obtain ⟨hlt, -⟩ := List.getElem?_eq_some_iff.1 hk
    obtain ⟨line, hplace⟩ := exists_mem_place pre (.code text) post
    have hany : ((place (pre ++ .code text :: post)).any fun p => p.token.isCode &&
        decide (p.offset ≤ 0 + (pre.flatMap Token.text).length + k ∧
          0 + (pre.flatMap Token.text).length + k < p.stop)) = true := by
      refine List.any_eq_true.2 ⟨_, hplace, ?_⟩
      rw [Bool.and_eq_true, decide_eq_true_eq]
      refine ⟨rfl, ?_, ?_⟩
      · show (pre.flatMap Token.text).length ≤ _
        omega
      · show _ < (pre.flatMap Token.text).length + text.length
        omega
    rw [if_pos hany, ← hsource]
    exact hget

/-! ## Counted braces -/

theorem pairwise_enumerateFrom (n : Nat) (s : List Char) :
    (enumerateFrom n s).Pairwise fun x y => x.1 < y.1 := by
  induction s generalizing n with
  | nil => exact .nil
  | cons c s ih =>
      refine .cons (fun x hx => ?_) (ih (n + 1))
      obtain ⟨k, -, hk⟩ := mem_enumerateFrom.1 (show (x.1, x.2) ∈ _ from hx)
      show n < x.1
      omega

theorem pairwise_charsFrom (n : Nat) (ts : List Token) :
    (charsFrom n ts).Pairwise fun x y => x.1 < y.1 := by
  induction ts generalizing n with
  | nil => exact .nil
  | cons t ts ih =>
      rw [charsFrom_cons, List.pairwise_append]
      refine ⟨pairwise_enumerateFrom n _, ih _, fun x hx y hy => ?_⟩
      have hy := (bounds_of_mem_charsFrom (show (y.1, y.2) ∈ _ from hy)).1
      obtain ⟨k, hk, hx⟩ := mem_enumerateFrom.1 (show (x.1, x.2) ∈ _ from hx)
      obtain ⟨hlt, -⟩ := List.getElem?_eq_some_iff.1 hk
      have hle : (codeText [t]).length ≤ t.text.length := by
        cases t <;> simp [codeText, Token.text]
      omega

theorem pairwise_codeChars (source : List Char) :
    (codeChars source).Pairwise fun x y => x.1 < y.1 := by
  obtain ⟨ts, final, hreads⟩ := exists_reads_plain .code source
  rw [codeChars_eq_charsFrom hreads]
  exact pairwise_charsFrom 0 ts

/-- How often a character stands among characters in front of an offset. -/
def countBefore (c : Char) (stop : Nat) (chars : List (Nat × Char)) : Nat :=
  chars.countP fun x => decide (x.1 < stop ∧ x.2 = c)

/-- Offset by offset or along the code, a character is met equally often. -/
theorem codeCount_eq_countBefore (source : List Char) (c : Char) (start stop : Nat) :
    codeCount source c start stop =
      countBefore c stop ((codeChars source).filter fun x => decide (start ≤ x.1)) := by
  have hnodup : (((codeChars source).filter fun x => decide (start ≤ x.1)).filter
      fun x => decide (x.1 < stop ∧ x.2 = c)).Pairwise fun x y => x.1 ≠ y.1 :=
    (((pairwise_codeChars source).filter _).filter _).imp fun h => Nat.ne_of_lt h
  have hperm : ((List.range' start (stop - start)).filter fun i => codeAt? source i == some c).Perm
      ((((codeChars source).filter fun x => decide (start ≤ x.1)).filter
        fun x => decide (x.1 < stop ∧ x.2 = c)).map Prod.fst) := by
    refine (List.perm_ext_iff_of_nodup ((List.nodup_range').filter _)
      (List.pairwise_map.2 hnodup)).2 fun i => ?_
    simp only [List.mem_filter, List.mem_range'_1, List.mem_map, beq_iff_eq, decide_eq_true_eq,
      codeAt?_eq_some_iff, Prod.exists, exists_and_right, exists_eq_right]
    constructor
    · rintro ⟨hrange, hmem⟩
      exact ⟨c, ⟨hmem, by omega⟩, by omega, rfl⟩
    · rintro ⟨d, ⟨hmem, hle⟩, hlt, rfl⟩
      exact ⟨by omega, hmem⟩
  rw [codeCount, countBefore, List.countP_eq_length_filter, List.countP_eq_length_filter,
    hperm.length_eq, List.length_map]

/-- A closing brace among characters ends at an offset, and `depth` braces that were open before
are closed there. -/
def Levels (depth : Int) (chars : List (Nat × Char)) (stop : Nat) : Prop :=
  (∃ i, stop = i + 1 ∧ (i, '}') ∈ chars) ∧
    depth + countBefore '{' stop chars = countBefore '}' stop chars

theorem countBefore_cons (c d : Char) (i stop : Nat) (chars : List (Nat × Char)) :
    countBefore c stop ((i, d) :: chars) =
      countBefore c stop chars + if i < stop ∧ d = c then 1 else 0 := by
  simp only [countBefore, List.countP_cons, decide_eq_true_eq]

theorem countBefore_of_after {c : Char} {i : Nat} {chars : List (Nat × Char)}
    (hafter : ∀ x ∈ chars, i < x.1) : countBefore c (i + 1) chars = 0 := by
  refine List.countP_eq_zero.2 fun x hx => ?_
  have hlt := hafter x hx
  simp only [decide_eq_true_eq]
  omega

/-- The first character counts for all braces behind it, or it is the brace itself. -/
theorem levels_cons_iff {i : Nat} {chars : List (Nat × Char)} (hafter : ∀ x ∈ chars, i < x.1)
    (depth : Int) (c : Char) (stop : Nat) :
    Levels depth ((i, c) :: chars) stop ↔
      (stop = i + 1 ∧ c = '}' ∧ depth = 1) ∨
        Levels (depth + (if c = '{' then 1 else 0) - if c = '}' then 1 else 0) chars stop := by
  unfold Levels
  rw [countBefore_cons, countBefore_cons]
  constructor
  · rintro ⟨⟨j, rfl, hmem⟩, heven⟩
    rcases List.mem_cons.1 hmem with hj | hmem
    · obtain ⟨rfl, rfl⟩ := Prod.mk.inj hj
      rw [countBefore_of_after hafter, countBefore_of_after hafter] at heven
      simp at heven
      exact .inl ⟨rfl, rfl, heven⟩
    · have hlt : i < j + 1 := Nat.lt_succ_of_lt (hafter _ hmem)
      refine .inr ⟨⟨j, rfl, hmem⟩, ?_⟩
      simp only [hlt, true_and] at heven
      split <;> split <;> simp_all <;> omega
  · rintro (⟨rfl, rfl, rfl⟩ | ⟨⟨j, rfl, hmem⟩, heven⟩)
    · refine ⟨⟨i, rfl, List.mem_cons_self⟩, ?_⟩
      rw [countBefore_of_after hafter, countBefore_of_after hafter]
      simp
    · have hlt : i < j + 1 := Nat.lt_succ_of_lt (hafter _ hmem)
      refine ⟨⟨j, rfl, List.mem_cons_of_mem _ hmem⟩, ?_⟩
      simp only [hlt, true_and]
      split at heven <;> split at heven <;> simp_all <;> omega

/-- The braces balance at the least offset at which they are even. -/
theorem finds_balance? (depth : Int) {chars : List (Nat × Char)}
    (hsorted : chars.Pairwise fun x y => x.1 < y.1) :
    Finds (Levels depth chars) (balance? depth chars) := by
  induction chars generalizing depth with
  | nil =>
      rintro e ⟨⟨i, -, hmem⟩, -⟩
      cases hmem
  | cons x chars ih =>
      obtain ⟨i, c⟩ := x
      obtain ⟨hafter, htail⟩ := List.pairwise_cons.1 hsorted
      have hiff := levels_cons_iff hafter depth c
      by_cases hclosed : c = '}' ∧ depth = 1
      · obtain ⟨rfl, rfl⟩ := hclosed
        show IsLeast {e | Levels 1 ((i, '}') :: chars) e} (i + 1)
        refine ⟨(hiff _).2 (.inl ⟨rfl, rfl, rfl⟩), fun e he => ?_⟩
        rcases (hiff e).1 he with ⟨rfl, -, -⟩ | ⟨⟨j, rfl, hmem⟩, -⟩
        · exact Nat.le_refl _
        · exact Nat.succ_le_succ (Nat.le_of_lt (hafter _ hmem))
      · have hbalance : balance? depth ((i, c) :: chars) =
            balance? (depth + (if c = '{' then 1 else 0) - if c = '}' then 1 else 0) chars := by
          rw [balance?]
          by_cases hopen : c = '{'
          · simp [hopen]
          · by_cases hclose : c = '}'
            · have hdepth : depth ≠ 1 := fun h => hclosed ⟨hclose, h⟩
              simp [hclose, hdepth]
            · simp [hopen, hclose]
        rw [hbalance]
        refine (ih _ htail).congr fun e => ?_
        rw [hiff e, or_iff_right fun h => hclosed h.2]

/-! ## Bodies -/

theorem evenAt_iff {source : List Char} {start : Int} {stop : Nat} :
    EvenAt source start stop ↔
      Levels 0 ((codeChars source).filter fun x => decide (start ≤ x.1)) stop := by
  have hfilter : (fun x : Nat × Char => decide (start ≤ x.1)) =
      fun x => decide ((max start 0).toNat ≤ x.1) := by
    funext x
    rw [decide_eq_decide]
    omega
  rw [hfilter]
  constructor
  · rintro ⟨⟨i, rfl, hle, hbrace⟩, heven⟩
    refine ⟨⟨i, rfl, List.mem_filter.2 ⟨codeAt?_eq_some_iff.1 hbrace, ?_⟩⟩, ?_⟩
    · simp only [decide_eq_true_eq]
      omega
    · rw [Int.zero_add, ← codeCount_eq_countBefore, ← codeCount_eq_countBefore, heven]
  · rintro ⟨⟨i, rfl, hmem⟩, heven⟩
    obtain ⟨hmem, hle⟩ := List.mem_filter.1 hmem
    rw [decide_eq_true_eq] at hle
    rw [Int.zero_add, ← codeCount_eq_countBefore, ← codeCount_eq_countBefore] at heven
    exact ⟨⟨i, rfl, by omega, codeAt?_eq_some_iff.2 hmem⟩, Int.ofNat.inj heven⟩

theorem finds_body (source : List Char) (start : Int) :
    Finds (EvenAt source start)
      (balance? 0 ((codeChars source).filter fun x => decide (start ≤ x.1))) :=
  (finds_balance? 0 ((pairwise_codeChars source).filter _)).congr fun _ => evenAt_iff.symm

theorem bodyStop_eq_ok_iff {source : List Char} {start : Int} {stop : Nat} :
    bodyStop source start = .ok stop ↔ IsLeast {e | EvenAt source start e} stop := by
  rw [← (finds_body source start).eq_some_iff, bodyStop, bodyEnd?]
  split
  · rename_i e he
    rw [he, Except.ok.injEq, Option.some.injEq]
  · rename_i he
    rw [he]
    simp

theorem bodyStop_eq_error_iff {source : List Char} {start : Int} {error : Error} :
    bodyStop source start = .error error ↔
      error = .unclosedBody (lineAt source start.toNat) ∧ ∀ e, ¬ EvenAt source start e := by
  rw [← (finds_body source start).eq_none_iff, bodyStop, bodyEnd?]
  split
  · rename_i e he
    rw [he]
    simp
  · rename_i he
    rw [he, Except.error.injEq]
    simp [eq_comm]

/-! ## Heads of classes -/

theorem readClass?_isSome_iff_head {s : List Char} :
    (readClass? s).isSome = true ↔ ∃ head, ClassHead head ∧ head <+: s := by
  rw [readClass?_isSome_iff]
  constructor
  · rintro ⟨blanks, c, rest, hne, hblank, hstart, rfl⟩
    exact ⟨_, ⟨blanks, c, rfl, hne, hblank, hstart⟩, rest, by simp⟩
  · rintro ⟨_, ⟨blanks, c, rfl, hne, hblank, hstart⟩, rest, rfl⟩
    exact ⟨blanks, c, rest, hne, hblank, hstart, by simp⟩

/-- A class starts at an offset of a text that stands behind a character. -/
def ClassIn (before : Option Char) (s : List Char) (j : Nat) : Prop :=
  atBoundary ((s.take j).getLast?.or before) = true ∧ (readClass? (s.drop j)).isSome = true

theorem ClassIn.lt_length {before : Option Char} {s : List Char} {j : Nat}
    (h : ClassIn before s j) : j < s.length := by
  by_contra hle
  have hread := h.2
  rw [List.drop_eq_nil_of_le (by omega)] at hread
  cases hread

theorem finds_findClass? (before : Option Char) (s : List Char) :
    Finds (ClassIn before s) (findClass? before s) := by
  induction s generalizing before with
  | nil => exact fun j hj => absurd hj.lt_length (Nat.not_lt_zero j)
  | cons c s ih =>
      have hzero : ClassIn before (c :: s) 0 ↔
          (atBoundary before && (readClass? (c :: s)).isSome) = true :=
        Bool.and_eq_true_iff.symm
      have hsucc : ∀ j, ClassIn before (c :: s) (j + 1) ↔ ClassIn (some c) s j := by
        intro j
        rw [ClassIn, List.take_succ_cons, getLast?_cons_or, List.drop_succ_cons]
        rfl
      rw [findClass?]
      split
      · rename_i hhead
        exact ⟨hzero.2 hhead, fun j _ => Nat.zero_le j⟩
      · rename_i hhead
        have htail := ih (some c)
        cases hfind : findClass? (some c) s with
        | none =>
            rw [hfind] at htail
            intro j hj
            cases j with
            | zero => exact hhead (hzero.1 hj)
            | succ j => exact htail j ((hsucc j).1 hj)
        | some i =>
            rw [hfind] at htail
            refine ⟨(hsucc i).2 htail.1, fun j hj => ?_⟩
            cases j with
            | zero => exact absurd (hzero.1 hj) hhead
            | succ j => exact Nat.succ_le_succ (htail.2 ((hsucc j).1 hj))

/-- A class starts at an offset in the code of tokens, the first of which stands at `n`. -/
def ClassAmong (n : Nat) (ts : List Token) (k : Nat) : Prop :=
  ∃ pre text post j, ts = pre ++ .code text :: post ∧
    k = n + (pre.flatMap Token.text).length + j ∧ ClassIn none text j

theorem classAmong_cons_iff {n k : Nat} {t : Token} {ts : List Token} :
    ClassAmong n (t :: ts) k ↔
      (∃ text j, t = .code text ∧ k = n + j ∧ ClassIn none text j) ∨
        ClassAmong (n + t.text.length) ts k := by
  constructor
  · rintro ⟨pre, text, post, j, hsplit, rfl, hclass⟩
    cases pre with
    | nil =>
        obtain ⟨rfl, rfl⟩ := List.cons.inj hsplit
        exact .inl ⟨text, j, rfl, rfl, hclass⟩
    | cons u pre =>
        obtain ⟨rfl, rfl⟩ := List.cons.inj hsplit
        refine .inr ⟨pre, text, post, j, rfl, ?_, hclass⟩
        rw [List.flatMap_cons, List.length_append]
        omega
  · rintro (⟨text, j, rfl, rfl, hclass⟩ | ⟨pre, text, post, j, rfl, rfl, hclass⟩)
    · exact ⟨[], text, ts, j, rfl, rfl, hclass⟩
    · refine ⟨t :: pre, text, post, j, rfl, ?_, hclass⟩
      rw [List.flatMap_cons, List.length_append]
      omega

theorem finds_classFrom? (n : Nat) (ts : List Token) :
    Finds (ClassAmong n ts) (classFrom? n ts) := by
  induction ts generalizing n with
  | nil =>
      rintro k ⟨pre, text, post, j, hsplit, -⟩
      simp at hsplit
  | cons t ts ih =>
      have tail : (∀ text, t = .code text → findClass? none text = none) →
          Finds (ClassAmong n (t :: ts)) (classFrom? n (t :: ts)) := by
        intro ht
        rw [classFrom?_cons ht]
        refine (ih (n + t.text.length)).congr fun k => ?_
        rw [classAmong_cons_iff, or_iff_right]
        rintro ⟨text, j, htext, -, hclass⟩
        exact (finds_findClass? none text).eq_none_iff.1 (ht text htext) j hclass
      cases t with
      | code text =>
          cases hfind : findClass? none text with
          | none =>
              refine tail fun text' htext => ?_
              cases htext
              exact hfind
          | some j =>
              obtain ⟨hclass, hleast⟩ := (finds_findClass? none text).eq_some_iff.1 hfind
              rw [classFrom?_code, hfind]
              refine ⟨classAmong_cons_iff.2 (.inl ⟨text, j, rfl, rfl, hclass⟩), fun k hk => ?_⟩
              rcases classAmong_cons_iff.1 hk with ⟨text', i, htext, rfl, hi⟩ | ⟨_, _, _, i, -, rfl, -⟩
              · cases htext
                exact Nat.add_le_add_left (hleast hi) n
              · have hlt := ClassIn.lt_length hclass
                simp only [Token.text]
                omega
      | _ => exact tail fun _ htext => by cases htext

section Run

variable {source : List Char} {ts pre post : List Token} {final : Mode} {text : List Char} {j : Nat}
  (h : Reads false .code source ts final) (hts : ts = pre ++ .code text :: post)

include h hts

theorem take_drop_run (hj : j ≤ text.length) :
    source.take ((pre.flatMap Token.text).length + j) = pre.flatMap Token.text ++ text.take j ∧
      source.drop ((pre.flatMap Token.text).length + j) =
        text.drop j ++ post.flatMap Token.text := by
  rw [← h.flatMap_text, hts, List.flatMap_append, List.flatMap_cons, List.take_length_add_append,
    List.drop_length_add_append]
  exact ⟨by rw [Token.text, List.take_append_of_le_length hj],
    by rw [Token.text, List.drop_append_of_le_length hj]⟩

/-- A class behind a boundary of its run of code stands behind one of the source, since no word runs
on from one token into the next. -/
theorem atBoundary_run_iff (hread : (readClass? (text.drop j)).isSome = true) :
    atBoundary (pre.flatMap Token.text ++ text.take j).getLast? = true ↔
      atBoundary ((text.take j).getLast?.or none) = true := by
  by_cases hnil : text.take j = []
  · obtain ⟨u, hu⟩ := exists_cons_of_readClass? hread
    have htext := List.take_append_drop j text
    rw [hnil, List.nil_append, hu] at htext
    have hapart := h.separated
    rw [hts] at hapart
    have hbound : atBoundary (pre.flatMap Token.text).getLast? = true := by
      refine atBoundary_getLast? (d := 'c') (apart_flatMap_text hapart) ?_ (by decide)
      rw [List.flatMap_cons, Token.text, ← htext]
      rfl
    rw [hnil, List.append_nil]
    exact ⟨fun _ => rfl, fun _ => hbound⟩
  · rw [getLast?_append_of_ne_nil hnil, Option.or_none]

end Run

theorem classAt_iff {source : List Char} {ts : List Token} {final : Mode} {k : Nat}
    (h : Reads false .code source ts final) : ClassAt source k ↔ ClassAmong 0 ts k := by
  constructor
  · rintro ⟨p, hp, head, hcode, hhead, hle, hstop, hlead, hbound⟩
    rw [plainTokens_eq h] at hp
    obtain ⟨pre, post, hts, hoffset⟩ := exists_of_mem_place hp
    cases htoken : p.token with
    | code text =>
        rw [Placed.stop, htoken] at hstop
        have hstop : k + head.length ≤ p.offset + text.length := hstop
        rw [htoken] at hts
        obtain ⟨j, rfl⟩ : ∃ j, k = (pre.flatMap Token.text).length + j :=
          ⟨k - p.offset, by omega⟩
        obtain ⟨htake, hdrop⟩ := take_drop_run h hts (j := j) (by omega)
        have hread : (readClass? (text.drop j)).isSome = true := by
          rw [hdrop] at hlead
          refine readClass?_isSome_iff_head.2 ⟨head, hhead, ?_⟩
          refine List.prefix_of_prefix_length_le hlead (List.prefix_append _ _) ?_
          rw [List.length_drop]
          omega
        rw [htake, atBoundary_run_iff h hts hread] at hbound
        exact ⟨pre, text, post, j, hts, by omega, hbound, hread⟩
    | _ =>
        rw [htoken] at hcode
        cases hcode
  · rintro ⟨pre, text, post, j, hts, rfl, hbound, hread⟩
    have hlt : j < text.length := ClassIn.lt_length ⟨hbound, hread⟩
    obtain ⟨htake, hdrop⟩ := take_drop_run h hts (Nat.le_of_lt hlt)
    obtain ⟨head, hhead, hlead⟩ := readClass?_isSome_iff_head.1 hread
    obtain ⟨line, hplace⟩ := exists_mem_place pre (.code text) post
    rw [← hts, ← plainTokens_eq h] at hplace
    have hlength := hlead.length_le
    rw [List.length_drop] at hlength
    refine ⟨_, hplace, head, rfl, hhead, ?_, ?_, ?_, ?_⟩
    · show (pre.flatMap Token.text).length ≤ _
      omega
    · show _ ≤ (pre.flatMap Token.text).length + text.length
      omega
    · rw [Nat.zero_add, hdrop]
      exact hlead.trans (List.prefix_append _ _)
    · rw [Nat.zero_add, htake]
      exact (atBoundary_run_iff h hts hread).2 hbound

theorem finds_start? (source : List Char) : Finds (ClassAt source) (start? source) := by
  obtain ⟨ts, final, hreads⟩ := exists_reads_plain .code source
  rw [start?_eq_classFrom? hreads]
  exact (finds_classFrom? 0 ts).congr fun _ => (classAt_iff hreads).symm

/-! ## Located bodies -/

theorem evenAt_of_locate {source : List Char} {span : Span} (h : locate source = .ok span) :
    IsLeast {e | EvenAt source span.start e} span.stop := by
  obtain ⟨-, hstop⟩ := locate_eq_ok_iff.1 h
  rw [← bodyStop_eq_ok_iff, bodyStop, bodyEnd?, hstop]

theorem evenAt_slice_of_locate {source : List Char} {span : Span} (h : locate source = .ok span) :
    EvenAt (span.slice source) 0 (span.slice source).length := by
  obtain ⟨a, w, hreads, hslice, hdepth⟩ := exists_reads_slice h
  have hstop := balance?_charsFrom_of_depthAfter? hdepth 0 [] []
  have hall : (codeChars (span.slice source)).filter (fun x => decide ((0 : Int) ≤ x.1)) =
      codeChars (span.slice source) :=
    List.filter_eq_self.2 fun x _ => decide_eq_true (Int.natCast_nonneg x.1)
  rw [← codeChars_eq_charsFrom hreads, ← hall] at hstop
  have hleast := (finds_body (span.slice source) 0).eq_some_iff.1 hstop
  have hlength : (span.slice source).length = 0 + (a.flatMap Token.text ++ w).length + 1 := by
    rw [hslice]
    simp only [List.length_append, List.length_singleton]
    omega
  rw [hlength]
  exact hleast.1

/-- From any offset on, a body ends at the least offset at which it closes, and it has no end
exactly if there is none. The component starts at the least offset of a class. So a located body
starts with the head of its class, ends with a closing brace and opens as many braces as it closes,
in the source and by itself. -/
theorem locate_extent (source : List Char) :
    (∀ (start : Int) (stop : Nat),
      bodyStop source start = .ok stop ↔ IsLeast {e | EvenAt source start e} stop) ∧
    (∀ (start : Int) (error : Error), bodyStop source start = .error error ↔
      error = .unclosedBody (lineAt source start.toNat) ∧ ∀ e, ¬ EvenAt source start e) ∧
    (∀ k, start? source = some k ↔ IsLeast {k | ClassAt source k} k) ∧
    (start? source = none ↔ ∀ k, ¬ ClassAt source k) ∧
    (locate source = .error .noComponent ↔ ∀ k, ¬ ClassAt source k) ∧
    ∀ span, locate source = .ok span →
      IsLeast {k | ClassAt source k} span.start ∧
      IsLeast {e | EvenAt source span.start e} span.stop ∧
      (∃ head, ClassHead head ∧ head <+: span.slice source) ∧
      (span.slice source).getLast? = some '}' ∧
      codeCount source '{' span.start span.stop = codeCount source '}' span.start span.stop ∧
      codeCount (span.slice source) '{' 0 (span.slice source).length =
        codeCount (span.slice source) '}' 0 (span.slice source).length := by
  refine ⟨fun _ _ => bodyStop_eq_ok_iff, fun _ _ => bodyStop_eq_error_iff,
    fun _ => (finds_start? source).eq_some_iff, (finds_start? source).eq_none_iff, ?_,
    fun span h => ?_⟩
  · rw [← (finds_start? source).eq_none_iff]
    unfold locate
    cases hstart : start? source with
    | none => simp
    | some k =>
        simp only [bodyStop, bodyEnd?]
        split <;> simp [Except.map]
  · have hstop := evenAt_of_locate h
    have heven := hstop.1.even
    have hstart : (max (span.start : Int) 0).toNat = span.start := by omega
    rw [hstart] at heven
    exact ⟨(finds_start? source).eq_some_iff.1 (locate_eq_ok_iff.1 h).1, hstop,
      readClass?_isSome_iff_head.1 (readClass?_slice_of_locate h),
      (getLast?_slice_of_locate h).2.2, heven, (evenAt_slice_of_locate h).even⟩

/-- The brace in the string does not count, the one before it does. -/
theorem locate_extent_braceFirst :
    let source := "\x7d'\x7b'class A \x7b\x7b\x7d\x7d".toList
    IsLeast {e | EvenAt source (-3) e} 15 ∧ (∀ e, ¬ EvenAt source 14 e) ∧
      IsLeast {k | ClassAt source k} 4 ∧
      locate source = .ok ⟨4, 16⟩ ∧ IsLeast {e | EvenAt source 4 e} 16 ∧
      codeCount source '{' 4 16 = codeCount source '}' 4 16 := by
  intro source
  obtain ⟨hstop, herror, hstart, -, -, hspan⟩ := locate_extent source
  have hearly : bodyStop source (-3) = .ok 15 := by decide +kernel
  have hlate : bodyStop source 14 = .error (.unclosedBody 1) := by decide +kernel
  have hclass : start? source = some 4 := by decide +kernel
  have hlocate : locate source = .ok ⟨4, 16⟩ := by decide +kernel
  obtain ⟨-, hleast, -, -, heven, -⟩ := hspan ⟨4, 16⟩ hlocate
  exact ⟨(hstop _ _).1 hearly, ((herror _ _).1 hlate).2, (hstart 4).1 hclass, hlocate, hleast,
    heven⟩

end ElementBundle.Component
