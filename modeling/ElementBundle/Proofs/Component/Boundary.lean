import ElementBundle.Proofs.Component.Count
import ElementBundle.Proofs.Component.Edit

/-! # Bodies of rewritten components

A component is located in the rewritten script. If the blocks in front of it show
no class and those in it leave the number of open braces as it is, its body
starts and ends in the script where it starts and ends in the source.
-/

namespace ElementBundle.Component

open ElementBundle.Text ElementBundle.Source ElementBundle.Markup

/-! ## The first class in front of more text -/

theorem exists_cons_of_readClass? {s : List Char} (h : (readClass? s).isSome = true) :
    ∃ u, s = 'c' :: u := by
  obtain ⟨blanks, c, rest, -, -, -, rfl⟩ := readClass?_isSome_iff.1 h
  exact ⟨_, rfl⟩

/-- The head of a class is cut off only if no class starts behind its keyword. -/
theorem readClass?_of_append {s more : List Char} {d : Char}
    (h : (readClass? (d :: s ++ more)).isSome = true) (hc : 'c' ∈ s) :
    (readClass? (d :: s)).isSome = true := by
  obtain ⟨blanks, c, rest, hne, hblank, hstart, hs⟩ := readClass?_isSome_iff.1 h
  have hhead : (d :: s) ++ more = (classWord ++ blanks) ++ (c :: rest) := by
    rw [hs, List.append_assoc]
  have hkeyword : ∀ a, classWord ++ blanks ≠ (d :: s) ++ a := by
    intro a ha
    have htail : ['l', 'a', 's', 's'] ++ blanks = s ++ a := (List.cons.inj ha).2
    have hmem : 'c' ∈ ['l', 'a', 's', 's'] ++ blanks := htail ▸ List.mem_append_left a hc
    rcases List.mem_append.1 hmem with hmem | hmem
    · exact absurd hmem (by decide)
    · exact absurd (hblank _ hmem) (by decide)
  rw [readClass?_isSome_iff]
  rcases List.append_eq_append_iff.1 hhead with ⟨a, ha, -⟩ | ⟨a, ha, hrest⟩
  · exact absurd ha (hkeyword a)
  · cases a with
    | nil =>
        rw [List.append_nil] at ha
        exact absurd (ha.symm.trans (List.append_nil _).symm) (hkeyword [])
    | cons e a =>
        obtain ⟨rfl, rfl⟩ := List.cons.inj hrest
        exact ⟨blanks, c, a, hne, hblank, hstart, ha⟩

/-- The first class of a text stays the first one when more text follows. -/
theorem findClass?_append {before : Option Char} {s : List Char} {j : Nat}
    (h : findClass? before s = some j) (more : List Char) :
    findClass? before (s ++ more) = some j := by
  induction s generalizing before j with
  | nil => cases h
  | cons d s ih =>
      rw [findClass?] at h
      rw [List.cons_append, findClass?]
      split at h
      · rename_i hd
        cases h
        obtain ⟨hbefore, hclass⟩ := Bool.and_eq_true_iff.1 hd
        have hmore := readClass?_append hclass more
        rw [List.cons_append] at hmore
        rw [hbefore, hmore]
        rfl
      · rename_i hd
        obtain ⟨i, hi, rfl⟩ := Option.map_eq_some_iff.1 h
        have hc : 'c' ∈ s := by
          obtain ⟨a, b, rfl, -, hb⟩ := findClass?_eq_some hi
          obtain ⟨u, rfl⟩ := exists_cons_of_readClass? hb
          simp
        rw [if_neg, ih hi]
        · rfl
        · intro hmore
          obtain ⟨hbefore, hclass⟩ := Bool.and_eq_true_iff.1 hmore
          exact hd (Bool.and_eq_true_iff.2 ⟨hbefore, readClass?_of_append hclass hc⟩)

/-! ## The first class of tokens -/

theorem classFrom?_code (n : Nat) (text : List Char) (ts : List Token) :
    classFrom? n (.code text :: ts) =
      ((findClass? none text).map (n + ·)).or (classFrom? (n + text.length) ts) := by
  simp only [classFrom?, runsFrom, List.findSome?_cons]
  cases findClass? none text <;> rfl

theorem classFrom?_cons {t : Token} (h : ∀ text, t = .code text → findClass? none text = none)
    (n : Nat) (ts : List Token) :
    classFrom? n (t :: ts) = classFrom? (n + t.text.length) ts := by
  cases t with
  | code text =>
      rw [classFrom?_code, h text rfl]
      rfl
  | _ => rfl

theorem classFrom?_append {xs : List Token}
    (h : ∀ text, .code text ∈ xs → findClass? none text = none) (n : Nat) (ys : List Token) :
    classFrom? n (xs ++ ys) = classFrom? (n + (xs.flatMap Token.text).length) ys := by
  induction xs generalizing n with
  | nil => rfl
  | cons t xs ih =>
      have ht : ∀ text, t = .code text → findClass? none text = none :=
        fun text ht => h text (ht ▸ List.mem_cons_self)
      rw [List.cons_append, classFrom?_cons ht,
        ih fun text htext => h text (List.mem_cons_of_mem t htext), List.flatMap_cons,
        List.length_append, Nat.add_assoc]

theorem findClass?_close (text : List Char) :
    findClass? none (')' :: text) = (findClass? none text).map (· + 1) := by
  have hword : atBoundary (some ')') = atBoundary none := by decide
  have hbefore : findClass? (some ')') text = findClass? none text := by
    cases text with
    | nil => rfl
    | cons c text => rw [findClass?, findClass?, hword]
  have hclass : readClass? (')' :: text) = none := rfl
  rw [findClass?, hclass, hbefore]
  rfl

/-- A closing parenthesis in front of code hides no class and makes none. -/
theorem classFrom?_push_close (n : Nat) (ts : List Token) :
    classFrom? n (Token.push (.code [')']) ts) = classFrom? (n + 1) ts := by
  obtain ⟨b, us, rfl, hpush⟩ | ⟨-, hpush⟩ := Token.push_code_cases [')'] ts
  · rw [hpush, classFrom?_code, classFrom?_code, List.singleton_append, findClass?_close,
      Option.map_map, List.length_cons, Nat.add_assoc n 1, Nat.add_comm 1 b.length]
    congr 2
    funext i
    simp only [Function.comp_apply]
    omega
  · rw [hpush, classFrom?_code, findClass?_close]
    rfl

/-! ## The first class of the second scan -/

/-- Scanned as script, the literal of a block ends in code and shows no class. -/
def Classless (r : Renderer) (b : Block) : Prop :=
  ∃ ts, scan (r.literal b) false = .ok ⟨ts, {}⟩ ∧
    ∀ text, .code text ∈ ts → findClass? none text = none

/-- The tokens of the literal of a block, scanned as script. -/
def literalTokens (r : Renderer) (b : Block) : List Token :=
  match scan (r.literal b) false with
  | .ok scanned => scanned.tokens
  | .error _ => []

theorem Classless.reads {r : Renderer} {b : Block} (h : Classless r b) :
    Reads false .code (r.literal b) (literalTokens r b) .code := by
  obtain ⟨ts, hscan, -⟩ := h
  rw [literalTokens, hscan]
  exact reads_of_scan_literal hscan

theorem Classless.no_class {r : Renderer} {b : Block} (h : Classless r b) :
    ∀ text, .code text ∈ literalTokens r b → findClass? none text = none := by
  obtain ⟨ts, hscan, hclass⟩ := h
  rw [literalTokens, hscan]
  exact hclass

theorem exists_string_of_tick {mode final : Mode} {s : List Char} {ts : List Token}
    (h : Reads false mode ('`' :: s) ts final) : ∃ text us, ts = .string text :: us := by
  generalize hs : '`' :: s = u at h
  cases h with
  | nil => cases hs
  | @cons _ _ _ t rest us head tail =>
      cases head with
      | code nonempty unmarked marked =>
          obtain ⟨c, text, rfl⟩ := List.exists_cons_of_ne_nil nonempty
          obtain ⟨rfl, -⟩ := List.cons.inj hs
          exact absurd (unmarked.isQuote_eq_false _ List.mem_cons_self) (by decide)
      | string => exact ⟨_, us, rfl⟩
      | openString => exact ⟨_, us, rfl⟩
      | markup on => cases on
      | _ => cases hs

section
variable {r : Renderer} (hr : r.helper = "renderComposcriptHTML".toList)
include hr

theorem findClass?_lead (b : Block) : findClass? none (r.lead b) = none := by
  unfold Renderer.lead
  split
  · decide
  · rw [hr]
    decide

omit hr in
theorem Classless.onto_eq {b : Block} (h : Classless r b) (text : List Char) (us : List Token) :
    r.onto (literalTokens r) (.markup text b) us =
      .code (r.lead b) :: (literalTokens r b ++ (r.close b).foldr Token.push us) := by
  obtain ⟨str, ts, hts⟩ := exists_string_of_tick h.reads
  rw [Renderer.onto, hts]
  rfl

theorem Classless.classFrom?_onto {b : Block} (h : Classless r b) (text : List Char) (n : Nat)
    (us : List Token) :
    classFrom? n (r.onto (literalTokens r) (.markup text b) us) =
      classFrom? (n + (r.block b).length) us := by
  have hclose : ∀ m, classFrom? m ((r.close b).foldr Token.push us) =
      classFrom? (m + ((r.close b).flatMap Token.text).length) us := by
    intro m
    unfold Renderer.close
    split
    · rfl
    · exact classFrom?_push_close m us
  have hlead : ∀ code, Token.code (r.lead b) = .code code → findClass? none code = none := by
    rintro _ ⟨⟩
    exact findClass?_lead hr b
  rw [h.onto_eq, classFrom?_cons hlead, classFrom?_append h.no_class, hclose,
    h.reads.flatMap_text, Renderer.block_eq]
  simp only [Token.text, List.length_append, Nat.add_assoc]

/-- Code in front of a token that is no code is searched by itself, or together
with the code that leads a block. -/
theorem classFrom?_push_code_onto {text : List Char} {t : Token} (ht : t.isCode = false)
    (htext : findClass? none text = none)
    (hblock : ∀ s b, t = .markup s b →
      Classless r b ∧ findClass? none (text ++ r.lead b) = none) (n : Nat) (us : List Token) :
    classFrom? n (Token.push (.code text) (r.onto (literalTokens r) t us)) =
      classFrom? (n + text.length) (r.onto (literalTokens r) t us) := by
  have hcons : ∀ {code : List Char}, findClass? none code = none → ∀ m ts,
      classFrom? m (.code code :: ts) = classFrom? (m + code.length) ts := by
    intro code hcode m ts
    rw [classFrom?_code, hcode]
    rfl
  cases t with
  | code => cases ht
  | markup s b =>
      obtain ⟨hless, hboth⟩ := hblock s b rfl
      rw [hless.onto_eq, Token.push, hcons hboth, hcons (findClass?_lead hr b),
        List.length_append, Nat.add_assoc]
  | _ => exact hcons htext n _

/-- If the tokens in front of it show no class, the first class of the second scan
is the first one of the tokens behind them. -/
theorem classFrom?_foldr_onto {pre post : List Token} {code : List Char}
    (hchain : (pre ++ .code code :: post).IsChain fun a b => ¬ (a.isCode = true ∧ b.isCode = true))
    (hfirst : ∀ text, .code text ∈ pre → findClass? none text = none)
    (hless : ∀ text b, .markup text b ∈ pre → Classless r b)
    (hlead : ∀ a text s b c, pre = a ++ .code text :: .markup s b :: c →
      findClass? none (text ++ r.lead b) = none) (n : Nat) (us : List Token) :
    classFrom? n (pre.foldr (r.onto (literalTokens r)) us) =
      classFrom? (n + (r.tokens pre).length) us := by
  induction pre generalizing n with
  | nil => rfl
  | cons t pre ih =>
      have ih' := fun m => ih hchain.tail (fun text ht => hfirst text (List.mem_cons_of_mem t ht))
        (fun text b hb => hless text b (List.mem_cons_of_mem t hb))
        (fun a text s b c hpre => hlead (t :: a) text s b c (by rw [hpre]; rfl)) m
      have hstep : classFrom? n (r.onto (literalTokens r) t
          (pre.foldr (r.onto (literalTokens r)) us)) =
          classFrom? (n + (r.token t).length) (pre.foldr (r.onto (literalTokens r)) us) := by
        cases t with
        | code text =>
            cases pre with
            | nil => exact absurd ⟨rfl, rfl⟩ (List.isChain_cons_cons.1 hchain).1
            | cons t' pre =>
                have ht' : t'.isCode = false := by
                  have hnot := (List.isChain_cons_cons.1 hchain).1
                  simpa [Token.isCode] using hnot
                refine classFrom?_push_code_onto hr ht' (hfirst text List.mem_cons_self) ?_ n _
                rintro s b rfl
                exact ⟨hless s b (by simp), hlead [] text s b pre rfl⟩
        | markup text b =>
            exact (hless text b List.mem_cons_self).classFrom?_onto hr text n _
        | _ => rfl
      rw [List.foldr_cons, hstep, ih', Renderer.tokens, Renderer.tokens, List.flatMap_cons,
        List.length_append, Nat.add_assoc]

end

/-! ## Texts from an offset on -/

theorem bounds_of_mem_charsFrom {n i : Nat} {c : Char} {ts : List Token}
    (h : (i, c) ∈ charsFrom n ts) : n ≤ i ∧ i < n + (ts.flatMap Token.text).length := by
  obtain ⟨⟨offset, text⟩, hrun, hmem⟩ := List.mem_flatMap.1 h
  obtain ⟨pre, post, rfl, rfl⟩ := exists_of_mem_runsFrom hrun
  obtain ⟨k, hk, rfl⟩ := mem_enumerateFrom.1 hmem
  obtain ⟨hlt, -⟩ := List.getElem?_eq_some_iff.1 hk
  simp only [List.flatMap_append, List.flatMap_cons, List.length_append, Token.text]
  omega

theorem filter_charsFrom (pre post : List Token) (u v : List Char) :
    let k := (pre.flatMap Token.text ++ u).length
    (charsFrom 0 (pre ++ .code (u ++ v) :: post)).filter (fun x => k ≤ x.1) =
      charsFrom k (.code v :: post) := by
  intro k
  have hk : k = (pre.flatMap Token.text).length + u.length := List.length_append
  have hcut : charsFrom 0 (pre ++ .code (u ++ v) :: post) =
      charsFrom 0 (pre ++ [.code u]) ++ charsFrom k (.code v :: post) := by
    have hnil : ∀ n, charsFrom n [] = [] := fun _ => rfl
    rw [charsFrom_append, charsFrom_append, charsFrom_cons, charsFrom_cons, charsFrom_cons]
    simp [codeText, Token.text, enumerateFrom_append, hk, hnil, Nat.add_assoc]
  have hfront : ∀ x ∈ charsFrom 0 (pre ++ [.code u]), ¬ decide (k ≤ x.1) = true := by
    intro x hx
    have hlt := (bounds_of_mem_charsFrom hx).2
    simp only [List.flatMap_append, List.flatMap_cons, List.flatMap_nil, List.length_append,
      Token.text] at hlt
    simp only [decide_eq_true_eq, List.length_nil] at hlt ⊢
    omega
  have hback : ∀ x ∈ charsFrom k (.code v :: post), decide (k ≤ x.1) = true := by
    intro x hx
    simpa using (bounds_of_mem_charsFrom hx).1
  rw [hcut, List.filter_append, List.filter_eq_nil_iff.2 hfront, List.filter_eq_self.2 hback]
  rfl

theorem reads_drop_class {markup : Bool} {mode final : Mode} {s u v : List Char}
    {pre post : List Token} (h : Reads markup mode s (pre ++ .code (u ++ v) :: post) final)
    (hv : (readClass? v).isSome = true) :
    Reads markup .code (v ++ post.flatMap Token.text) (.code v :: post) final := by
  obtain ⟨w, rfl⟩ := exists_cons_of_readClass? hv
  refine h.drop_code (List.cons_ne_nil _ _) fun rest hrest => ⟨?_, hrest.2⟩
  simp [opener?, isQuote]

theorem exists_reads_behind_brace {mode final : Mode} {s w x : List Char} {a c : List Token}
    (h : Reads true mode s (a ++ .code (w ++ '}' :: x) :: c) final) (r : Renderer) :
    ∃ rest, Reads true .code (x ++ c.flatMap Token.text) rest final ∧
      r.tokens rest = x ++ r.tokens c := by
  cases x with
  | nil =>
      obtain ⟨mid, hmid⟩ := h.drop
      obtain ⟨next, head, tail⟩ := hmid.uncons
      cases head with
      | code => exact ⟨c, tail, rfl⟩
  | cons d x =>
      have hsplit : w ++ '}' :: d :: x = (w ++ ['}']) ++ d :: x := by simp
      rw [hsplit] at h
      refine ⟨.code (d :: x) :: c, h.drop_code (List.cons_ne_nil _ _) ?_, rfl⟩
      intro rest hrest
      rwa [colonAfter_append] at hrest

theorem drop_behind (a w x : List Char) (c : Char) :
    (a ++ (w ++ c :: x)).drop (a.length + w.length + 1) = x := by
  have happend : a ++ (w ++ c :: x) = (a ++ (w ++ [c])) ++ x := by simp
  have hlength : a.length + w.length + 1 = (a ++ (w ++ [c])).length := by simp [Nat.add_assoc]
  rw [happend, hlength, List.drop_left]

/-- Behind the brace that closes a body, the script goes on with the rewriting of
what the source goes on with. -/
theorem exists_reads_behind_body {source u v w x : List Char} {pre post a c : List Token}
    {final : Mode} (h : Reads true .code source (pre ++ .code (u ++ v) :: post) final)
    (hv : (readClass? v).isSome = true)
    (hbody : .code v :: post = a ++ .code (w ++ '}' :: x) :: c) (r : Renderer) :
    ∃ rest,
      Reads true .code (source.drop ((pre.flatMap Token.text ++ u).length +
        (a.flatMap Token.text ++ w).length + 1)) rest final ∧
      (r.tokens (pre ++ .code (u ++ v) :: post)).drop ((r.tokens pre ++ u).length +
        (r.tokens a ++ w).length + 1) = r.tokens rest := by
  have hrest := reads_drop_class h hv
  rw [hbody] at hrest
  obtain ⟨rest, hbehind, hrender⟩ := exists_reads_behind_brace hrest r
  refine ⟨rest, ?_, ?_⟩
  · have hsource : source = (pre.flatMap Token.text ++ u) ++
        ((a.flatMap Token.text ++ w) ++ '}' :: (x ++ c.flatMap Token.text)) := by
      have htext := congrArg (List.flatMap Token.text) hbody
      rw [← h.flatMap_text]
      simpa [Token.text] using htext
    rw [hsource, drop_behind]
    exact hbehind
  · have hscript : r.tokens (pre ++ .code (u ++ v) :: post) =
        (r.tokens pre ++ u) ++ ((r.tokens a ++ w) ++ '}' :: (x ++ r.tokens c)) := by
      have htokens := congrArg r.tokens hbody
      simpa [Renderer.tokens, Renderer.token, Token.text] using htokens
    rw [hscript, drop_behind, hrender]

/-! ## Located bodies -/

theorem locate_of_compile {r : Renderer} {source : List Char} {scanned : Scan}
    (h : scan source = .ok scanned) {tag : Option (List Char)} {c : Compiled}
    (hc : compile r source tag = .ok c) : locate (r.tokens scanned.tokens) = .ok c.span := by
  obtain ⟨⟨state, hscan⟩, hscript, hspan, -⟩ := compile_eq_ok hc
  obtain rfl := Except.ok.inj (h.symm.trans hscan)
  rw [← hscript]
  exact hspan

theorem decide_natCast_le (k : Nat) :
    (fun x : Nat × Char => decide ((k : Int) ≤ x.1)) = fun x => decide (k ≤ x.1) := by
  funext x
  rw [decide_eq_decide]
  exact Int.ofNat_le

theorem locate_eq_error {source : List Char} {k : Nat} (hstart : start? source = some k)
    (h : balance? 0 ((codeChars source).filter fun x => k ≤ x.1) = none) :
    locate source = .error (.unclosedBody (lineAt source k)) := by
  unfold locate bodyStop bodyEnd?
  rw [hstart]
  simp only [decide_natCast_le, h]
  rfl

section
variable {r : Renderer} (hr : r.helper = "renderComposcriptHTML".toList)
include hr

/-- From a keyword that both scans find on, they find the same closing brace, or none. -/
theorem balance?_of_start? {source u v : List Char} {pre post : List Token} {final : Mode}
    (h : Reads true .code source (pre ++ .code (u ++ v) :: post) final)
    (hv : (readClass? v).isSome = true)
    (hsteady : ∀ a text b c depth, post = a ++ .markup text b :: c →
      depthAfter? 0 (v ++ codeText a) = some depth → Steady r depth b)
    (hstart : start? (r.tokens (pre ++ .code (u ++ v) :: post)) =
      some (r.tokens pre ++ u).length) :
    let i := (pre.flatMap Token.text ++ u).length
    let k := (r.tokens pre ++ u).length
    let counted := balance? 0
      ((charsFrom 0 (pre ++ .code (u ++ v) :: post)).filter fun x => i ≤ x.1)
    let found := balance? 0
      ((codeChars (r.tokens (pre ++ .code (u ++ v) :: post))).filter fun x => k ≤ x.1)
    (counted = none ∧ found = none) ∨
      ∃ a w x c, .code v :: post = a ++ .code (w ++ '}' :: x) :: c ∧
        counted = some (i + (a.flatMap Token.text ++ w).length + 1) ∧
        found = some (k + (r.tokens a ++ w).length + 1) := by
  intro i k counted found
  -- Whatever the blocks in front show, the second scan is in code at the keyword.
  obtain ⟨us, final', hus⟩ := exists_reads_plain .code (r.tokens (pre ++ .code (u ++ v) :: post))
  rw [start?_eq_classFrom? hus] at hstart
  obtain ⟨pre', u', v', post', rfl, hk, hv'⟩ := exists_of_classFrom? hstart
  rw [Nat.zero_add] at hk
  have hscript : r.tokens (.code v :: post) = v' ++ post'.flatMap Token.text := by
    have hspell : (r.tokens pre ++ u) ++ r.tokens (.code v :: post) =
        (pre'.flatMap Token.text ++ u') ++ (v' ++ post'.flatMap Token.text) := by
      have htext := hus.flatMap_text.symm
      simpa [Renderer.tokens, Renderer.token, Token.text] using htext
    exact (List.append_inj hspell hk).2
  have hsteady' : ∀ a text b c depth, .code v :: post = a ++ .markup text b :: c →
      depthAfter? 0 (codeText a) = some depth → Steady r depth b := by
    intro a text b c depth hsplit hdepth
    cases a with
    | nil => cases hsplit
    | cons t a =>
        obtain ⟨rfl, rfl⟩ := List.cons.inj hsplit
        exact hsteady a text b c depth rfl (by simpa [codeText] using hdepth)
  have hrest := reads_drop_class hus hv'
  rw [← hscript] at hrest
  have hcounted : counted = balance? 0 (charsFrom i (.code v :: post)) := by
    rw [← filter_charsFrom]
  have hfound : found = balance? 0 (charsFrom k (.code v' :: post')) := by
    have hfilter := filter_charsFrom pre' post' u' v'
    rw [← hk] at hfilter
    simp only [found, codeChars_eq_charsFrom hus]
    rw [← hfilter]
  rw [hcounted, hfound]
  exact balance?_rewritten hr (reads_drop_class h hv) hsteady' hrest i k

/-- The first class of the source is the first one of the script. -/
theorem start?_rewritten {source u v : List Char} {pre post : List Token} {final : Mode}
    (h : Reads true .code source (pre ++ .code (u ++ v) :: post) final)
    (hfirst : ∀ text, .code text ∈ pre → findClass? none text = none)
    (hclass : findClass? none (u ++ v) = some u.length)
    (hless : ∀ text b, .markup text b ∈ pre → Classless r b)
    (hlead : ∀ a text s b c, pre = a ++ .code text :: .markup s b :: c →
      findClass? none (text ++ r.lead b) = none) :
    start? (r.tokens (pre ++ .code (u ++ v) :: post)) = some (r.tokens pre ++ u).length := by
  have hshows : ∀ t ∈ pre, r.Shows (literalTokens r) t := by
    rintro t ht text b rfl
    exact (hless text b ht).reads
  obtain ⟨mid, hpost, hrescan⟩ := reads_rescan hr h hshows
  obtain ⟨next, head, tail⟩ := hpost.uncons
  obtain ⟨us, final', hus⟩ := exists_reads_plain next (r.tokens post)
  have hcode : Reads false mid (r.tokens (.code (u ++ v) :: post))
      (Token.push (.code (u ++ v)) us) final' :=
    reads_onto hr head (fun _ _ ht => nomatch ht : r.Shows (literalTokens r) (.code (u ++ v)))
      (sameFront_tokens hr tail) hus
  have hscript := hrescan _ final' hcode
  rw [start?_eq_classFrom? hscript,
    classFrom?_foldr_onto hr h.isChain_code hfirst hless hlead]
  have hlength : (r.tokens pre ++ u).length = (r.tokens pre).length + u.length :=
    List.length_append
  rw [hlength, Nat.zero_add]
  obtain ⟨b, us', -, hpush⟩ | ⟨-, hpush⟩ := Token.push_code_cases (u ++ v) us
  · rw [hpush, classFrom?_code, findClass?_append hclass]
    rfl
  · rw [hpush, classFrom?_code, hclass]
    rfl

end

/-- Blocks that leave the component where it is. Its head follows `pre` and some
code; `post` follows the code of its head. -/
structure Undisturbed (r : Renderer) (pre : List Token) (head : List Char) (post : List Token) :
    Prop where
  /-- The blocks in front of the component show no class. -/
  classless : ∀ text b, .markup text b ∈ pre → Classless r b
  /-- No keyword in front of these blocks takes the code that leads a block for a name. -/
  nameless : ∀ a text s b c, pre = a ++ .code text :: .markup s b :: c →
    findClass? none (text ++ r.lead b) = none
  /-- While the body is open, no block changes the number of open braces. -/
  steady : ∀ a text b c depth, post = a ++ .markup text b :: c →
    depthAfter? 0 (head ++ codeText a) = some depth → Steady r depth b

theorem scan_literal_of_leaks_eq_false {r : Renderer} {text : List Char} {b : Block}
    (h : r.leaks (.markup text b) = false) :
    scan (r.literal b) false = .ok ⟨[.string (r.literal b)], {}⟩ :=
  scan_eq_ok_iff.2 ⟨.code, Renderer.shows_string h text b rfl, rfl⟩

theorem classless_of_leaks_eq_false {r : Renderer} {text : List Char} {b : Block}
    (h : r.leaks (.markup text b) = false) : Classless r b :=
  ⟨_, scan_literal_of_leaks_eq_false h, fun _ hm => nomatch List.mem_singleton.1 hm⟩

/-- Blocks in which no backtick ends a literal disturb no component whose keyword
does not stand in front of one. -/
theorem undisturbed_of_leaks_eq_false {r : Renderer} {pre post : List Token} {head : List Char}
    (h : ∀ t ∈ pre ++ post, r.leaks t = false)
    (hlead : ∀ a text s b c, pre = a ++ .code text :: .markup s b :: c →
      findClass? none (text ++ r.lead b) = none) : Undisturbed r pre head post where
  classless := fun text b hb => classless_of_leaks_eq_false (h _ (List.mem_append_left _ hb))
  nameless := hlead
  steady := by
    rintro a text b c depth rfl -
    exact ⟨_, scan_literal_of_leaks_eq_false (h (.markup text b) (by simp)), rfl⟩

/-- If no block disturbs the component, its span in the script is the one that counting braces over
the code of the source gives: it starts with the rewriting of the source from the keyword on, and what
follows it is the rewriting of what follows the closing brace in the source. -/
theorem locate_rewritten {source : List Char} {scanned : Scan} (h : scan source = .ok scanned)
    (selfTag : Option (List Char)) {pre post : List Token} {u v : List Char}
    (hsplit : scanned.tokens = pre ++ .code (u ++ v) :: post)
    (hfirst : ∀ text, .code text ∈ pre → findClass? none text = none)
    (hclass : findClass? none (u ++ v) = some u.length)
    (hblocks : Undisturbed { selfTag } pre v post) :
    let r : Renderer := { selfTag }
    let script := r.tokens scanned.tokens
    let i := (pre.flatMap Token.text ++ u).length
    let k := (r.tokens pre ++ u).length
    let counted := balance? 0 ((charsFrom 0 scanned.tokens).filter fun x => i ≤ x.1)
    (∃ rest, scan (source.drop i) = .ok ⟨rest, scanned.state⟩ ∧ script.drop k = r.tokens rest) ∧
    (∀ q, counted = some (q + 1) →
      ∃ stop rest, locate script = .ok ⟨k, stop⟩ ∧
        (∀ tag c, compile r source tag = .ok c → c.span = ⟨k, stop⟩) ∧
        scan (source.drop (q + 1)) = .ok ⟨rest, scanned.state⟩ ∧
        script.drop stop = r.tokens rest) ∧
    (counted = none →
      locate script = .error (.unclosedBody (lineAt script k)) ∧
        ∀ tag, compile r source tag =
          .error ⟨.extract, .unclosedBody (lineAt script k)⟩) := by
  intro r script i k counted
  obtain ⟨final, hreads, hstate⟩ := scan_eq_ok_iff.1 h
  obtain ⟨tokens, state⟩ := scanned
  dsimp only at hsplit hreads hstate
  subst hsplit hstate
  have hv : (readClass? v).isSome = true := by
    obtain ⟨a, b, hab, hlength, hb⟩ := findClass?_eq_some hclass
    obtain ⟨-, rfl⟩ := List.append_inj hab hlength.symm
    exact hb
  have hstart := start?_rewritten rfl hreads hfirst hclass hblocks.classless hblocks.nameless
  have hcount := balance?_of_start? rfl hreads hv hblocks.steady hstart
  refine ⟨⟨.code v :: post, ?_, ?_⟩, ?_, ?_⟩
  · have hsource : source = (pre.flatMap Token.text ++ u) ++ (v ++ post.flatMap Token.text) := by
      rw [← hreads.flatMap_text]
      simp [Token.text]
    rw [hsource, List.drop_left]
    exact scan_eq_ok_iff.2 ⟨final, reads_drop_class hreads hv, rfl⟩
  · have hscript : script = (r.tokens pre ++ u) ++ r.tokens (.code v :: post) := by
      simp [script, Renderer.tokens, Renderer.token, Token.text]
    rw [hscript, List.drop_left]
  · intro q hq
    obtain ⟨hnone, -⟩ | ⟨a, w, x, c, hbody, hcounted, hfound⟩ := hcount
    · cases hnone.symm.trans hq
    · obtain ⟨rest, hbehind, hdrop⟩ := exists_reads_behind_body hreads hv hbody r
      have hlocate : locate script = .ok ⟨k, k + (r.tokens a ++ w).length + 1⟩ := by
        rw [locate_eq_ok_iff, decide_natCast_le]
        exact ⟨hstart, hfound⟩
      refine ⟨_, rest, hlocate, ?_, ?_, hdrop⟩
      · intro tag d hd
        exact Except.ok.inj ((locate_of_compile h hd).symm.trans hlocate)
      · rw [Option.some.inj (hq.symm.trans hcounted)]
        exact scan_eq_ok_iff.2 ⟨final, hbehind, rfl⟩
  · intro hnone
    obtain ⟨-, hfound⟩ | ⟨a, w, x, c, -, hcounted, -⟩ := hcount
    · have hlocate := locate_eq_error hstart hfound
      refine ⟨hlocate, fun tag => ?_⟩
      unfold compile assemble
      rw [h]
      dsimp only
      rw [hlocate]
    · cases hnone.symm.trans hcounted

/-- A block in front of the component with a brace in its text, and a block in it whose expression
holds a template literal with a substitution. -/
theorem locate_rewritten_nested :
    let r : Renderer := {}
    let brace : Block := ⟨['i'], [.text "<i>".toList], [.text ['}']], [.text "</i>".toList]⟩
    let nested : Block := ⟨['p'], [.text "<p>".toList],
      [.expression "`<b>$\x7bx\x7d</b>`".toList], [.text "</p>".toList]⟩
    let pre : List Token := [.markup "<i>\x7d</i>".toList brace]
    let head := "class A \x7b f() \x7b return ".toList
    let post : List Token := [.markup "<p>\x7b`<b>$\x7bx\x7d</b>`\x7d</p>".toList nested,
      .code " \x7d \x7d;y".toList]
    let tokens := pre ++ .code (';' :: head) :: post
    scan (tokens.flatMap Token.text) = .ok ⟨tokens, {}⟩ ∧ Undisturbed r pre head post ∧
      ∃ stop rest, locate (r.tokens tokens) = .ok ⟨34, stop⟩ ∧
        scan ";y".toList = .ok ⟨rest, {}⟩ ∧ (r.tokens tokens).drop stop = r.tokens rest := by
  intro r brace nested pre head post tokens
  have hscan : scan (tokens.flatMap Token.text) = .ok ⟨tokens, {}⟩ := by decide +kernel
  have hblocks : Undisturbed r pre head post := by
    refine ⟨?_, ?_, ?_⟩
    · intro text b hb
      have hclean : r.leaks (.markup "<i>\x7d</i>".toList brace) = false := by decide
      rw [← List.mem_singleton.1 hb] at hclean
      exact classless_of_leaks_eq_false hclean
    · intro a text s b c hsplit
      have hlength := congrArg List.length hsplit
      simp [pre] at hlength
      omega
    · intro a text b c depth hsplit hdepth
      rcases a with _ | ⟨t, _ | ⟨t', a⟩⟩
      · obtain ⟨hblock, -⟩ := List.cons.inj hsplit
        obtain ⟨-, rfl⟩ := Token.markup.inj hblock
        have htwo : depthAfter? 0 (head ++ codeText []) = some 2 := by decide
        obtain rfl := Option.some.inj (htwo.symm.trans hdepth)
        exact ⟨[.string "`<p>$\x7b`".toList, .code "<b>$\x7bx\x7d</b>".toList,
          .string "`\x7d</p>`".toList], by decide +kernel, by decide⟩
      · obtain ⟨-, htail⟩ := List.cons.inj hsplit
        exact nomatch (List.cons.inj htail).1
      · obtain ⟨-, htail⟩ := List.cons.inj hsplit
        exact absurd (List.cons.inj htail).2.symm (by simp)
  obtain ⟨-, hstop, -⟩ := locate_rewritten hscan (some "This".toList) (u := [';']) rfl
    (fun _ h => nomatch List.mem_singleton.1 h) (by decide +kernel) hblocks
  obtain ⟨stop, rest, hlocate, -, hrest, hdrop⟩ := hstop 57 (by decide +kernel)
  exact ⟨hscan, hblocks, stop, rest, hlocate, hrest, hdrop⟩

/-- A template literal in an expression that shows one closing brace: the body ends at the brace of
the method, and the brace that closes the class in the source is left behind it. -/
theorem locate_moved_by_literal :
    let r : Renderer := {}
    let block : Block := ⟨['p'], [.text "<p>".toList], [.expression "`\x7d`".toList],
      [.text "</p>".toList]⟩
    let tokens : List Token := [.code "class A \x7b\n".toList, .lineComment "// <a-b />".toList,
      .code "\nf() \x7b return ".toList, .markup "<p>\x7b`\x7d`\x7d</p>".toList block,
      .code " \x7d\n\x7d".toList]
    let source := tokens.flatMap Token.text
    scan source = .ok ⟨tokens, {}⟩ ∧
      balance? 0 ((charsFrom 0 tokens).filter fun x => 0 ≤ x.1) = some source.length ∧
      locate (r.tokens tokens) = .ok ⟨0, 74⟩ ∧ (r.tokens tokens).drop 74 = "\n\x7d".toList := by
  decide +kernel

end ElementBundle.Component
