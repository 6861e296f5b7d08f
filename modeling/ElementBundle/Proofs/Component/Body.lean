import ElementBundle.Component.Body
import ElementBundle.Proofs.Source.Lossless

/-! # Located bodies

What `locate` returns is tied to the characters of the source: a body starts
with the head of a class, ends with a brace in code, and neither is changed by
what stands around it.
-/

namespace ElementBundle.Component

open ElementBundle.Text ElementBundle.Source ElementBundle.Markup

/-! ## Heads of classes -/

def classWord : List Char := ['c', 'l', 'a', 's', 's']

theorem isBlank_eq_false_of_isIdentStart {c : Char} (h : isIdentStart c = true) :
    isBlank c = false := by
  have halpha : c.isAlpha = true → 36 ≤ c.toNat ∧ c.toNat ≤ 122 := by
    intro hc
    have hrange : 48 ≤ c.toNat ∧ c.toNat ≤ 122 := by
      apply toNat_of_isAlphanum
      show (c.isAlpha || c.isDigit) = true
      rw [hc]
      rfl
    omega
  have hrange : 36 ≤ c.toNat ∧ c.toNat ≤ 122 := by
    simp only [isIdentStart, Bool.or_eq_true, beq_iff_eq] at h
    rcases h with (h | rfl) | rfl
    · exact halpha h
    · decide
    · decide
  simp only [isBlank, Bool.or_eq_false_iff, Bool.and_eq_false_iff, decide_eq_false_iff_not,
    beq_eq_false_iff_ne]
  omega

theorem readClass?_eq_some {s name rest : List Char} (h : readClass? s = some (name, rest)) :
    ∃ blanks, blanks ≠ [] ∧ (∀ b ∈ blanks, isBlank b = true) ∧
      name.head?.any isIdentStart = true ∧ (∀ c ∈ name.tail, isIdentRest c = true) ∧
      rest.head?.any isIdentRest = false ∧ s = classWord ++ blanks ++ name ++ rest := by
  unfold readClass? at h
  split at h
  · rename_i b u hb
    have hs := dropLeading?_eq_some_iff.1 hb
    split at h
    · rename_i hblank
      split at h
      · rename_i c v hc
        split at h
        · rename_i hstart
          cases h
          refine ⟨b :: u.takeWhile isBlank, List.cons_ne_nil _ _, ?_, hstart, ?_, ?_, ?_⟩
          · intro d hd
            rcases List.mem_cons.1 hd with rfl | hd
            · exact hblank
            · exact List.mem_takeWhile_imp hd
          · exact fun d hd => List.mem_takeWhile_imp hd
          · exact head?_dropWhile_any isIdentRest v
          · have hu : u.takeWhile isBlank ++ c :: v = u := by
              rw [← hc, List.takeWhile_append_dropWhile]
            rw [hs]
            simp [classWord, List.takeWhile_append_dropWhile, hu]
        · cases h
      · cases h
    · cases h
  · cases h

/-- A class is read where its keyword, blanks and the first character of a name stand. -/
theorem readClass?_isSome_iff {s : List Char} :
    (readClass? s).isSome = true ↔
      ∃ blanks c rest, blanks ≠ [] ∧ (∀ b ∈ blanks, isBlank b = true) ∧
        isIdentStart c = true ∧ s = classWord ++ blanks ++ c :: rest := by
  constructor
  · intro h
    obtain ⟨⟨name, rest⟩, hread⟩ := Option.isSome_iff_exists.1 h
    obtain ⟨blanks, hne, hblank, hstart, -, -, hs⟩ := readClass?_eq_some hread
    cases name with
    | nil => cases hstart
    | cons c name => exact ⟨blanks, c, name ++ rest, hne, hblank, hstart, by simp [hs]⟩
  · rintro ⟨blanks, c, rest, hne, hblank, hstart, rfl⟩
    obtain ⟨b, blanks, rfl⟩ := List.exists_cons_of_ne_nil hne
    have hdrop : dropLeading? ['c', 'l', 'a', 's', 's'] (classWord ++ b :: blanks ++ c :: rest) =
        some (b :: (blanks ++ c :: rest)) := by
      rw [dropLeading?_eq_some_iff]
      simp [classWord]
    have hskip : (blanks ++ c :: rest).dropWhile isBlank = c :: rest :=
      dropWhile_append_stop (fun d hd => hblank d (List.mem_cons_of_mem b hd))
        (isBlank_eq_false_of_isIdentStart hstart)
    have hb : isBlank b = true := hblank b List.mem_cons_self
    unfold readClass?
    rw [hdrop]
    simp [hb, hskip, hstart]

theorem readClass?_append {s : List Char} (h : (readClass? s).isSome = true) (more : List Char) :
    (readClass? (s ++ more)).isSome = true := by
  rw [readClass?_isSome_iff] at h ⊢
  obtain ⟨blanks, c, rest, hne, hblank, hstart, rfl⟩ := h
  exact ⟨blanks, c, rest ++ more, hne, hblank, hstart, by simp⟩

theorem findClass?_eq_some {before : Option Char} {s : List Char} {j : Nat}
    (h : findClass? before s = some j) :
    ∃ a b, s = a ++ b ∧ a.length = j ∧ (readClass? b).isSome = true := by
  induction s generalizing before j with
  | nil => cases h
  | cons c s ih =>
      rw [findClass?] at h
      split at h
      · rename_i hc
        cases h
        exact ⟨[], c :: s, rfl, rfl, (Bool.and_eq_true_iff.1 hc).2⟩
      · obtain ⟨i, hi, rfl⟩ := Option.map_eq_some_iff.1 h
        obtain ⟨a, b, rfl, rfl, hb⟩ := ih hi
        exact ⟨c :: a, b, rfl, rfl, hb⟩

/-! ## Runs and characters of code -/

/-- The runs of code of tokens, the first of which stands at an offset. -/
def runsFrom (offset : Nat) : List Token → List (Nat × List Char)
  | [] => []
  | .code text :: ts => (offset, text) :: runsFrom (offset + text.length) ts
  | t :: ts => runsFrom (offset + t.text.length) ts

/-- The characters of code of tokens, the first of which stands at an offset. -/
def charsFrom (offset : Nat) (ts : List Token) : List (Nat × Char) :=
  (runsFrom offset ts).flatMap fun (offset, text) => enumerateFrom offset text

theorem filterMap_placeFrom (offset line : Nat) (ts : List Token) :
    ((placeFrom offset line ts).filterMap fun
      | ⟨.code text, offset, _⟩ => some (offset, text)
      | _ => none) = runsFrom offset ts := by
  induction ts generalizing offset line with
  | nil => rfl
  | cons t ts ih =>
      cases t <;> simp [placeFrom, runsFrom, ih, Token.text]

theorem codeRuns_eq_runsFrom {source : List Char} {ts : List Token} {final : Mode}
    (h : Reads false .code source ts final) : codeRuns source = runsFrom 0 ts := by
  have hscan : scan source false = .ok ⟨ts, { mode := final }⟩ := scan_eq_ok_iff.2 ⟨final, h, rfl⟩
  rw [codeRuns, plainTokens, hscan]
  exact filterMap_placeFrom 0 1 ts

theorem codeChars_eq_charsFrom {source : List Char} {ts : List Token} {final : Mode}
    (h : Reads false .code source ts final) : codeChars source = charsFrom 0 ts := by
  rw [codeChars, codeRuns_eq_runsFrom h]
  rfl

theorem exists_of_mem_runsFrom {offset i : Nat} {text : List Char} {ts : List Token}
    (h : (i, text) ∈ runsFrom offset ts) :
    ∃ pre post, ts = pre ++ .code text :: post ∧
      i = offset + (pre.flatMap Token.text).length := by
  induction ts generalizing offset with
  | nil => cases h
  | cons t ts ih =>
      have tail : ∀ n, n = offset + t.text.length → (i, text) ∈ runsFrom n ts →
          ∃ pre post, t :: ts = pre ++ .code text :: post ∧
            i = offset + (pre.flatMap Token.text).length := by
        rintro n rfl hmem
        obtain ⟨pre, post, rfl, rfl⟩ := ih hmem
        exact ⟨t :: pre, post, rfl, by simp [Nat.add_assoc]⟩
      cases t with
      | code u =>
          rw [runsFrom, List.mem_cons] at h
          rcases h with h | h
          · cases h
            exact ⟨[], ts, rfl, rfl⟩
          · exact tail _ rfl h
      | _ => exact tail _ rfl h

/-- The offset of the first class in the code of tokens, the first of which
stands at an offset. -/
def classFrom? (offset : Nat) (ts : List Token) : Option Nat :=
  (runsFrom offset ts).findSome? fun (offset, text) => (findClass? none text).map (offset + ·)

theorem start?_eq_classFrom? {source : List Char} {ts : List Token} {final : Mode}
    (h : Reads false .code source ts final) : start? source = classFrom? 0 ts := by
  rw [start?, codeRuns_eq_runsFrom h]
  rfl

theorem exists_of_classFrom? {n k : Nat} {ts : List Token} (h : classFrom? n ts = some k) :
    ∃ pre u v post, ts = pre ++ .code (u ++ v) :: post ∧
      k = n + (pre.flatMap Token.text ++ u).length ∧ (readClass? v).isSome = true := by
  obtain ⟨⟨offset, text⟩, hrun, hfind⟩ := List.exists_of_findSome?_eq_some h
  obtain ⟨j, hj, rfl⟩ := Option.map_eq_some_iff.1 hfind
  obtain ⟨pre, post, rfl, rfl⟩ := exists_of_mem_runsFrom hrun
  obtain ⟨u, v, rfl, rfl, hv⟩ := findClass?_eq_some hj
  exact ⟨pre, u, v, post, rfl, by rw [List.length_append, Nat.add_assoc], hv⟩

theorem mem_enumerateFrom {offset i : Nat} {c : Char} {s : List Char} :
    (i, c) ∈ enumerateFrom offset s ↔ ∃ k, s[k]? = some c ∧ i = offset + k := by
  induction s generalizing offset with
  | nil => simp [enumerateFrom]
  | cons d s ih =>
      rw [enumerateFrom, List.mem_cons, ih]
      constructor
      · rintro (h | ⟨k, hk, rfl⟩)
        · cases h
          exact ⟨0, rfl, rfl⟩
        · exact ⟨k + 1, hk, by omega⟩
      · rintro ⟨k, hk, rfl⟩
        cases k with
        | zero =>
            obtain rfl : d = c := by simpa using hk
            exact .inl rfl
        | succ k => exact .inr ⟨k, hk, by omega⟩

/-- Tokens give the characters of code the offsets that they have in the text. -/
theorem getElem?_of_mem_charsFrom {i : Nat} {c : Char} {ts : List Token}
    (h : (i, c) ∈ charsFrom 0 ts) : (ts.flatMap Token.text)[i]? = some c := by
  obtain ⟨⟨offset, text⟩, hrun, hmem⟩ := List.mem_flatMap.1 h
  obtain ⟨pre, post, rfl, rfl⟩ := exists_of_mem_runsFrom hrun
  obtain ⟨k, hk, rfl⟩ := mem_enumerateFrom.1 hmem
  obtain ⟨hlt, -⟩ := List.getElem?_eq_some_iff.1 hk
  rw [Nat.zero_add, List.flatMap_append, List.flatMap_cons, List.getElem?_append_right (by omega),
    Nat.add_sub_cancel_left, List.getElem?_append_left (by exact hlt)]
  exact hk

/-! ## Located spans -/

/-- A body is closed by a brace among the characters that were counted. -/
theorem exists_of_balance?_eq_some {depth : Int} {chars : List (Nat × Char)} {stop : Nat}
    (h : balance? depth chars = some stop) : ∃ i, stop = i + 1 ∧ (i, '}') ∈ chars := by
  induction chars generalizing depth with
  | nil => cases h
  | cons x chars ih =>
      obtain ⟨i, c⟩ := x
      have tail : ∀ d, balance? d chars = some stop →
          ∃ i', stop = i' + 1 ∧ (i', '}') ∈ (i, c) :: chars := by
        intro d hd
        obtain ⟨i', hstop, hmem⟩ := ih hd
        exact ⟨i', hstop, List.mem_cons_of_mem _ hmem⟩
      rw [balance?] at h
      split at h
      · exact tail _ h
      · split at h
        · rename_i hc
          split at h
          · cases h
            exact ⟨i, rfl, by rw [hc]; exact List.mem_cons_self⟩
          · exact tail _ h
        · exact tail _ h

theorem locate_eq_ok_iff {source : List Char} {span : Span} :
    locate source = .ok span ↔
      start? source = some span.start ∧
        balance? 0 ((codeChars source).filter fun x => (span.start : Int) ≤ x.1) =
          some span.stop := by
  obtain ⟨start, stop⟩ := span
  unfold locate
  cases hstart : start? source with
  | none => simp
  | some i =>
      simp only [bodyStop, bodyEnd?, Option.some.injEq]
      split
      · rename_i n hn
        simp only [Except.map, Except.ok.injEq, Span.mk.injEq]
        constructor
        · rintro ⟨rfl, rfl⟩
          exact ⟨rfl, hn⟩
        · rintro ⟨rfl, hstop⟩
          exact ⟨rfl, Option.some.inj (hn.symm.trans hstop)⟩
      · rename_i hn
        simp only [Except.map, reduceCtorEq, false_iff]
        rintro ⟨rfl, hstop⟩
        rw [hn] at hstop
        cases hstop

theorem readClass?_drop_start {source : List Char} {i : Nat} (h : start? source = some i) :
    (readClass? (source.drop i)).isSome = true := by
  obtain ⟨ts, final, hreads⟩ := exists_reads_plain .code source
  rw [start?_eq_classFrom? hreads] at h
  obtain ⟨pre, u, v, post, rfl, rfl, hv⟩ := exists_of_classFrom? h
  have hsource : source = (pre.flatMap Token.text ++ u) ++ (v ++ post.flatMap Token.text) := by
    rw [← hreads.flatMap_text]
    simp [Token.text]
  rw [hsource, Nat.zero_add, List.drop_left]
  exact readClass?_append hv _

/-- A located body lies in the source and its last character is a closing brace. -/
theorem getLast?_slice_of_locate {source : List Char} {span : Span}
    (h : locate source = .ok span) :
    span.start < span.stop ∧ span.stop ≤ source.length ∧
      (span.slice source).getLast? = some '}' := by
  obtain ⟨-, hstop⟩ := locate_eq_ok_iff.1 h
  obtain ⟨i, hi, hmem⟩ := exists_of_balance?_eq_some hstop
  obtain ⟨hchar, hle⟩ := List.mem_filter.1 hmem
  have hle : span.start ≤ i := by simpa using hle
  obtain ⟨ts, final, hreads⟩ := exists_reads_plain .code source
  rw [codeChars_eq_charsFrom hreads] at hchar
  have hget := getElem?_of_mem_charsFrom hchar
  rw [hreads.flatMap_text] at hget
  obtain ⟨hlt, -⟩ := List.getElem?_eq_some_iff.1 hget
  refine ⟨by omega, by omega, ?_⟩
  have hlength : (span.slice source).length = i + 1 - span.start := by
    simp only [Span.slice, List.length_drop, List.length_take]
    omega
  rw [List.getLast?_eq_getElem?, hlength, Span.slice, List.getElem?_drop, hi,
    List.getElem?_take_of_lt (by omega)]
  have hindex : span.start + (i + 1 - span.start - 1) = i := by omega
  rw [hindex, hget]

theorem Span.slice_eq_take_drop (span : Span) (source : List Char) :
    span.slice source = (source.drop span.start).take (span.stop - span.start) := by
  rw [Span.slice, List.drop_take]

/-- A beginning that ends with a character goes beyond every text without it. -/
theorem exists_take_eq_append {w u : List Char} {x : Char} {n : Nat} (hx : x ∉ w)
    (hlast : ((w ++ u).take n).getLast? = some x) : ∃ v, (w ++ u).take n = w ++ v := by
  rw [List.take_append] at hlast ⊢
  rcases Nat.le_total n w.length with hn | hn
  · rw [Nat.sub_eq_zero_of_le hn, List.take_zero, List.append_nil] at hlast
    exact absurd (List.mem_of_mem_take (List.mem_of_getLast? hlast)) hx
  · exact ⟨u.take (n - w.length), by rw [List.take_of_length_le hn]⟩

theorem readClass?_slice_of_locate {source : List Char} {span : Span}
    (h : locate source = .ok span) : (readClass? (span.slice source)).isSome = true := by
  obtain ⟨-, -, hlast⟩ := getLast?_slice_of_locate h
  have hclass := readClass?_drop_start (locate_eq_ok_iff.1 h).1
  obtain ⟨blanks, c, rest, hne, hblank, hstart, hs⟩ := readClass?_isSome_iff.1 hclass
  have hbrace : '}' ∉ classWord ++ blanks ++ [c] := by
    simp only [List.mem_append, List.mem_singleton, not_or]
    refine ⟨⟨by decide, fun hm => ?_⟩, ?_⟩
    · exact absurd (hblank _ hm) (by decide)
    · rintro rfl
      exact absurd hstart (by decide)
  have hhead : source.drop span.start = classWord ++ blanks ++ [c] ++ rest := by simp [hs]
  rw [Span.slice_eq_take_drop, hhead] at hlast ⊢
  obtain ⟨v, hv⟩ := exists_take_eq_append hbrace hlast
  rw [readClass?_isSome_iff, hv]
  exact ⟨blanks, c, v, hne, hblank, hstart, by simp⟩

end ElementBundle.Component
