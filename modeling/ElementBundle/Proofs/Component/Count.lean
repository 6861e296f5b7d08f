import ElementBundle.Proofs.Component.Body
import ElementBundle.Proofs.Markup.Rescan

/-! # Counting braces over both scans

The braces of a body are counted in the rewritten script, by a scan that takes
template literals for strings. A literal with a backtick inside shows some of its
text to that scan as code. As long as what each block shows leaves the number of
open braces as it is, both scans find the same closing brace:
`balance?_rewritten`.
-/

namespace ElementBundle.Component

open ElementBundle.Text ElementBundle.Source ElementBundle.Markup

/-! ## Counting braces -/

/-- The number of open braces behind a text, unless a brace in it closes the body. -/
def depthAfter? (depth : Int) : List Char → Option Int
  | [] => some depth
  | c :: s =>
    if c = '{' then depthAfter? (depth + 1) s
    else if c = '}' then if depth = 1 then none else depthAfter? (depth - 1) s
    else depthAfter? depth s

def codeText (ts : List Token) : List Char :=
  ts.flatMap fun
    | .code text => text
    | _ => []

theorem depthAfter?_append (depth : Int) (a b : List Char) :
    depthAfter? depth (a ++ b) = (depthAfter? depth a).bind (depthAfter? · b) := by
  induction a generalizing depth with
  | nil => rfl
  | cons c a ih =>
      simp only [List.cons_append, depthAfter?]
      split
      · exact ih _
      · split
        · split
          · rfl
          · exact ih _
        · exact ih _

theorem depthAfter?_of_isGlue {s : List Char} (h : ∀ c ∈ s, isGlue c = true) (depth : Int) :
    depthAfter? depth s = some depth := by
  induction s with
  | nil => rfl
  | cons c s ih =>
      have hc := h c List.mem_cons_self
      have hopen : c ≠ '{' := by
        rintro rfl
        cases hc
      have hclose : c ≠ '}' := by
        rintro rfl
        cases hc
      rw [depthAfter?, if_neg hopen, if_neg hclose]
      exact ih fun d hd => h d (List.mem_cons_of_mem c hd)

theorem balance?_append {depth next : Int} {chars : List (Nat × Char)}
    (h : depthAfter? depth (chars.map Prod.snd) = some next) (rest : List (Nat × Char)) :
    balance? depth (chars ++ rest) = balance? next rest := by
  induction chars generalizing depth with
  | nil =>
      cases h
      rfl
  | cons x chars ih =>
      obtain ⟨i, c⟩ := x
      simp only [List.map_cons, depthAfter?] at h
      rw [List.cons_append, balance?]
      split
      · rename_i hc
        rw [if_pos hc] at h
        exact ih h
      · rename_i hc
        rw [if_neg hc] at h
        split
        · rename_i hc'
          rw [if_pos hc'] at h
          split
          · rename_i hd
            rw [if_pos hd] at h
            cases h
          · rename_i hd
            rw [if_neg hd] at h
            exact ih h
        · rename_i hc'
          rw [if_neg hc'] at h
          exact ih h

/-- A text that closes the body does so at a brace of its own, wherever it stands. -/
theorem exists_brace_of_depthAfter? {depth : Int} {text : List Char}
    (h : depthAfter? depth text = none) :
    ∃ w x, text = w ++ '}' :: x ∧
      ∀ n rest, balance? depth (enumerateFrom n text ++ rest) = some (n + w.length + 1) := by
  induction text generalizing depth with
  | nil => cases h
  | cons c text ih =>
      have tail : ∀ next, depthAfter? next text = none →
          (∀ n rest, balance? depth (enumerateFrom n (c :: text) ++ rest) =
            balance? next (enumerateFrom (n + 1) text ++ rest)) →
          ∃ w x, c :: text = w ++ '}' :: x ∧ ∀ n rest,
            balance? depth (enumerateFrom n (c :: text) ++ rest) = some (n + w.length + 1) := by
        intro next hnone hstep
        obtain ⟨w, x, rfl, hw⟩ := ih hnone
        refine ⟨c :: w, x, rfl, fun n rest => ?_⟩
        rw [hstep, hw, List.length_cons]
        congr 1
        omega
      rw [depthAfter?] at h
      split at h
      · rename_i hc
        exact tail _ h fun n rest => by simp [enumerateFrom, balance?, hc]
      · rename_i hc
        split at h
        · rename_i hc'
          split at h
          · rename_i hd
            refine ⟨[], text, by rw [hc']; rfl, fun n rest => ?_⟩
            simp [enumerateFrom, balance?, hc', hd]
          · rename_i hd
            exact tail _ h fun n rest => by simp [enumerateFrom, balance?, hc', hd]
        · rename_i hc'
          exact tail _ h fun n rest => by simp [enumerateFrom, balance?, hc, hc']

/-! ## Characters of code along tokens -/

theorem enumerateFrom_append (n : Nat) (a b : List Char) :
    enumerateFrom n (a ++ b) = enumerateFrom n a ++ enumerateFrom (n + a.length) b := by
  induction a generalizing n with
  | nil => rfl
  | cons c a ih =>
      rw [List.cons_append, enumerateFrom, ih, enumerateFrom, List.length_cons, Nat.add_assoc,
        Nat.add_comm 1]
      rfl

theorem map_snd_enumerateFrom (n : Nat) (s : List Char) :
    (enumerateFrom n s).map Prod.snd = s := by
  induction s generalizing n with
  | nil => rfl
  | cons c s ih => rw [enumerateFrom, List.map_cons, ih]

theorem charsFrom_cons (n : Nat) (t : Token) (ts : List Token) :
    charsFrom n (t :: ts) =
      enumerateFrom n (codeText [t]) ++ charsFrom (n + t.text.length) ts := by
  cases t <;> simp [charsFrom, runsFrom, codeText, enumerateFrom, Token.text]

theorem map_snd_charsFrom (n : Nat) (ts : List Token) :
    (charsFrom n ts).map Prod.snd = codeText ts := by
  induction ts generalizing n with
  | nil => rfl
  | cons t ts ih =>
      rw [charsFrom_cons, List.map_append, map_snd_enumerateFrom, ih]
      simp [codeText]

theorem charsFrom_append (n : Nat) (xs ys : List Token) :
    charsFrom n (xs ++ ys) =
      charsFrom n xs ++ charsFrom (n + (xs.flatMap Token.text).length) ys := by
  induction xs generalizing n with
  | nil => rfl
  | cons t xs ih =>
      rw [List.cons_append, charsFrom_cons, ih, charsFrom_cons, List.append_assoc,
        List.flatMap_cons, List.length_append, Nat.add_assoc]

theorem charsFrom_push (n : Nat) (t : Token) (ts : List Token) :
    charsFrom n (t.push ts) = charsFrom n (t :: ts) := by
  fun_cases Token.push t ts with
  | case1 a b ts =>
      rw [charsFrom_cons, charsFrom_cons, charsFrom_cons]
      simp [codeText, Token.text, enumerateFrom_append, Nat.add_assoc]
  | case2 => rfl

theorem charsFrom_foldr_push (n : Nat) (xs ys : List Token) :
    charsFrom n (xs.foldr Token.push ys) = charsFrom n (xs ++ ys) := by
  induction xs generalizing n with
  | nil => rfl
  | cons t xs ih => rw [List.foldr_cons, charsFrom_push, charsFrom_cons, ih, ← charsFrom_cons]; rfl

/-- Tokens whose code does not close the body only change the depth. -/
theorem balance?_charsFrom_append {depth next : Int} {xs : List Token}
    (h : depthAfter? depth (codeText xs) = some next) (n : Nat) (ys : List Token) :
    balance? depth (charsFrom n (xs ++ ys)) =
      balance? next (charsFrom (n + (xs.flatMap Token.text).length) ys) := by
  rw [charsFrom_append]
  rw [← map_snd_charsFrom n] at h
  exact balance?_append h _

/-! ## Counting over both scans -/

/-- Scanned as script, the literal of a block ends in code, and the code that it
shows leaves the number of open braces as it is. -/
def Steady (r : Renderer) (depth : Int) (b : Block) : Prop :=
  ∃ ts, scan (r.literal b) false = .ok ⟨ts, {}⟩ ∧ depthAfter? depth (codeText ts) = some depth

theorem reads_of_scan_literal {r : Renderer} {b : Block} {ts : List Token}
    (h : scan (r.literal b) false = .ok ⟨ts, {}⟩) : Reads false .code (r.literal b) ts .code := by
  obtain ⟨final, hreads, hstate⟩ := scan_eq_ok_iff.1 h
  cases hstate
  exact hreads

section
variable {r : Renderer} (hr : r.helper = "renderComposcriptHTML".toList)
include hr

/-- A steady block counts for the second scan as it does for the first: not at all. -/
theorem exists_tokens_onto {inner : Block → List Token} {depth : Int} {t : Token}
    (hshows : r.Shows inner t)
    (hsteady : ∀ text b, t = .markup text b →
      depthAfter? depth (codeText (inner b)) = some depth) :
    ∃ xs, xs.flatMap Token.text = r.token t ∧
      (∀ n us, charsFrom n (r.onto inner t us) = charsFrom n (xs ++ us)) ∧
      depthAfter? depth (codeText xs) = depthAfter? depth (codeText [t]) := by
  have hsame : r.token t = t.text → (∀ us, r.onto inner t us = t.push us) →
      ∃ xs, xs.flatMap Token.text = r.token t ∧
        (∀ n us, charsFrom n (r.onto inner t us) = charsFrom n (xs ++ us)) ∧
        depthAfter? depth (codeText xs) = depthAfter? depth (codeText [t]) := by
    intro htext honto
    refine ⟨[t], by simp [htext], fun n us => ?_, rfl⟩
    rw [honto, charsFrom_push]
    rfl
  cases t with
  | markup text b =>
      have hclose : depthAfter? depth (codeText (r.close b)) = some depth := by
        unfold Renderer.close
        split <;> rfl
      refine ⟨.code (r.lead b) :: inner b ++ r.close b, ?_, fun n us => ?_, ?_⟩
      · have hinner := (hshows text b rfl).flatMap_text
        simp [Renderer.token, Renderer.block_eq, Token.text, hinner]
      · rw [Renderer.onto, charsFrom_push, charsFrom_cons, charsFrom_append, charsFrom_foldr_push,
          ← charsFrom_append, ← charsFrom_cons, List.append_assoc, List.cons_append]
      · have hcode : codeText (.code (r.lead b) :: inner b ++ r.close b) =
            r.lead b ++ (codeText (inner b) ++ codeText (r.close b)) := by simp [codeText]
        rw [hcode, depthAfter?_append, depthAfter?_of_isGlue (r.isGlue_lead hr b), Option.bind_some,
          depthAfter?_append, hsteady text b rfl, Option.bind_some, hclose]
        rfl
  | _ => exact hsame rfl fun _ => rfl

omit hr in
theorem exists_code_of_depthAfter? {depth : Int} {t : Token}
    (h : depthAfter? depth (codeText [t]) = none) :
    ∃ w x, t = .code (w ++ '}' :: x) ∧
      ∀ n us, balance? depth (charsFrom n (t :: us)) = some (n + w.length + 1) := by
  obtain ⟨w, x, htext, hclose⟩ := exists_brace_of_depthAfter? h
  refine ⟨w, x, ?_, fun n us => ?_⟩
  · cases t with
    | code text =>
        rw [← htext]
        simp [codeText]
    | _ => simp [codeText] at htext
  · rw [charsFrom_cons, hclose]

theorem balance?_rewritten {mode final final' : Mode} {s : List Char} {ts us : List Token}
    {depth : Int} (h : Reads true mode s ts final)
    (hsteady : ∀ a text b c next, ts = a ++ .markup text b :: c →
      depthAfter? depth (codeText a) = some next → Steady r next b)
    (hus : Reads false mode (r.tokens ts) us final') (m n : Nat) :
    (balance? depth (charsFrom m ts) = none ∧ balance? depth (charsFrom n us) = none) ∨
      ∃ a w x c, ts = a ++ .code (w ++ '}' :: x) :: c ∧
        balance? depth (charsFrom m ts) =
          some (m + (a.flatMap Token.text ++ w).length + 1) ∧
        balance? depth (charsFrom n us) = some (n + (r.tokens a ++ w).length + 1) := by
  induction h generalizing depth us final' m n with
  | nil mode =>
      obtain ⟨rfl, -⟩ := hus.of_nil rfl
      exact .inl ⟨rfl, rfl⟩
  | @cons mode next final t rest ts head tail ih =>
      obtain ⟨inner, hshows, hinner⟩ : ∃ inner, r.Shows inner t ∧ ∀ text b, t = .markup text b →
          depthAfter? depth (codeText (inner b)) = some depth := by
        cases t with
        | markup text b =>
            obtain ⟨inner, hscan, hdepth⟩ := hsteady [] text b ts depth rfl rfl
            refine ⟨fun _ => inner, ?_, fun _ _ _ => hdepth⟩
            rintro _ _ ⟨⟩
            exact reads_of_scan_literal hscan
        | _ => exact ⟨fun _ => [], (fun _ _ h => nomatch h), (fun _ _ h => nomatch h)⟩
      -- Chains are unique, so the given one is built from any chain of the rest.
      obtain ⟨us', final'', hus'⟩ := exists_reads_plain next (r.tokens ts)
      have honto : Reads false mode (r.tokens (t :: ts)) (r.onto inner t us') final'' :=
        reads_onto hr head hshows (sameFront_tokens hr tail) hus'
      rw [hus.unique honto]
      cases hnext : depthAfter? depth (codeText [t]) with
      | none =>
          obtain ⟨w, x, rfl, hclose⟩ := exists_code_of_depthAfter? hnext
          refine .inr ⟨[], w, x, ts, rfl, hclose m ts, ?_⟩
          rw [Renderer.onto, charsFrom_push]
          · exact hclose n us'
          · exact fun _ _ h => by cases h
      | some d =>
          obtain ⟨xs, htext, hchars, hdepth⟩ := exists_tokens_onto hr hshows hinner
          have hsteady' : ∀ a text b c next, ts = a ++ .markup text b :: c →
              depthAfter? d (codeText a) = some next → Steady r next b := by
            rintro a text b c next rfl hd
            refine hsteady (t :: a) text b c next rfl ?_
            have hcode : codeText (t :: a) = codeText [t] ++ codeText a := by simp [codeText]
            rw [hcode, depthAfter?_append, hnext]
            exact hd
          have hsource : balance? depth (charsFrom m (t :: ts)) =
              balance? d (charsFrom (m + t.text.length) ts) := by
            have happend := balance?_charsFrom_append hnext m ts
            simpa using happend
          have hscript : balance? depth (charsFrom n (r.onto inner t us')) =
              balance? d (charsFrom (n + (r.token t).length) us') := by
            rw [hchars, balance?_charsFrom_append (hdepth.trans hnext), htext]
          rw [hsource, hscript]
          obtain ⟨hm, hn⟩ | ⟨a, w, x, c, rfl, hm, hn⟩ :=
            ih hsteady' hus' (m + t.text.length) (n + (r.token t).length)
          · exact .inl ⟨hm, hn⟩
          · refine .inr ⟨t :: a, w, x, c, rfl, ?_, ?_⟩
            · rw [hm, List.flatMap_cons]
              simp only [List.length_append]
              congr 1
              omega
            · rw [hn, Renderer.tokens, Renderer.tokens, List.flatMap_cons]
              simp only [List.length_append]
              congr 1
              omega

end

end ElementBundle.Component
