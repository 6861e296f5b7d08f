import ElementBundle.Proofs.Component.Members
import ElementBundle.Proofs.Component.Origin

/-! # Compiled classes are located again

The class of a compiled component starts where its body started. It ends in front
of its registration exactly if the text in front of its members, with a line feed
behind it, ends in code with one brace open. That is so wherever the directive
stands in a comment or a string, if what is left of that token when the directive
is replaced leaves the braces as they are: `compile_oneClass`. What is left of a
line comment is code, and may open a string or close a brace.
-/

namespace ElementBundle.Component

open ElementBundle.Text ElementBundle.Source ElementBundle.Markup

/-! ## The start of the class -/

theorem findClass?_of_head {before : Option Char} {u head tail : List Char}
    (hhead : (readClass? head).isSome = true)
    (h : findClass? before (u ++ (head ++ tail)) = some u.length) :
    findClass? before (u ++ head) = some u.length := by
  induction u generalizing before with
  | nil =>
      obtain ⟨s, rfl⟩ := exists_cons_of_readClass? hhead
      rw [List.nil_append, List.cons_append, findClass?] at h
      rw [List.nil_append, findClass?]
      split at h
      · rename_i hfound
        rw [if_pos (Bool.and_eq_true_iff.2 ⟨(Bool.and_eq_true_iff.1 hfound).1, hhead⟩)]
        rfl
      · obtain ⟨i, -, hi⟩ := Option.map_eq_some_iff.1 h
        cases hi
  | cons d u ih =>
      rw [List.cons_append, findClass?] at h ⊢
      split at h
      · cases h
      · rename_i hnot
        have htail : findClass? (some d) (u ++ (head ++ tail)) = some u.length := by
          obtain ⟨i, hi, hlength⟩ := Option.map_eq_some_iff.1 h
          rw [hi, Nat.succ.inj hlength]
        rw [if_neg, ih htail]
        · rfl
        · intro hfound
          have hclass := readClass?_append (Bool.and_eq_true_iff.1 hfound).2 tail
          rw [List.cons_append, List.append_assoc] at hclass
          exact hnot (Bool.and_eq_true_iff.2 ⟨(Bool.and_eq_true_iff.1 hfound).1, hclass⟩)

theorem reads_tame {s rest : List Char} {us : List Token} {final : Mode} (hs : s ≠ [])
    (htame : s.all isTame = true) (h : Reads false .code rest us final) :
    Reads false .code (s ++ rest) (Token.push (.code s) us) final := by
  have hmuted := muted_of_all (isMuted_of_isTame htame)
  refine h.push_code hs (hmuted.unmarked false rest) fun htrue => ?_
  rw [colonAfter_of_isTame htame] at htrue
  cases htrue

theorem exists_push_code (s : List Char) (us : List Token) :
    ∃ e post, Token.push (.code s) us = .code (s ++ e) :: post := by
  rcases Token.push_code_cases s us with ⟨b, post, -, hpush⟩ | ⟨-, hpush⟩
  · exact ⟨b, post, hpush⟩
  · exact ⟨[], us, by rw [hpush, List.append_nil]⟩

theorem isTame_head {head name : List Char} (h : readClass? head = some (name, [])) :
    head.all isTame = true := by
  obtain ⟨blanks, -, hblank, hstart, hident, -, rfl⟩ := readClass?_eq_some_iff.1 h
  rw [List.append_nil, List.all_eq_true]
  intro c hc
  exact isTame_of_class (isHeadChar_of_mem hblank hstart hident c hc) (by decide)

/-- A component starts where it did when its text is kept up to the head of its class. -/
theorem start?_of_head {source head name : List Char} {k : Nat} (h : start? source = some k)
    (hhead : readClass? head = some (name, [])) (hfront : head <+: source.drop k)
    (rest : List Char) : start? (source.take k ++ (head ++ rest)) = some k := by
  have htame := isTame_head hhead
  have hsome : (readClass? head).isSome = true := by rw [hhead]; rfl
  obtain ⟨c, hc⟩ := exists_cons_of_readClass? hsome
  have hne : head ≠ [] := hc ▸ List.cons_ne_nil 'c' c
  obtain ⟨pre, u, v, post, final, hreads, rfl, hclass, hpre⟩ := exists_reads_of_start? h
  have hsource : source = (pre.flatMap Token.text ++ u) ++ (v ++ post.flatMap Token.text) := by
    rw [← hreads.flatMap_text]
    simp [Token.text]
  rw [hsource, List.drop_left] at hfront
  rw [hsource, List.take_left]
  obtain ⟨mid, hmid⟩ := hreads.drop
  obtain ⟨next, hstands, -⟩ := hmid.uncons
  obtain ⟨tail, rfl⟩ : head <+: v :=
    hstands.prefix_of_code hfront (muted_of_all (isMuted_of_isTame htame)).plain
  obtain ⟨us, final', hus⟩ := exists_reads_plain .code rest
  have hnew := reads_tame hne htame hus
  obtain ⟨e, post', hpost⟩ := exists_push_code head us
  rw [hpost] at hnew
  have halike : Alike (head ++ tail ++ post.flatMap Token.text) (head ++ rest) := by
    rw [hc]
    exact alike_of_head (by decide) (by decide) _ _
  have hrun : Reads false .code (u ++ (head ++ rest)) (.code (u ++ (head ++ e)) :: post') final' := by
    by_cases hu : u = []
    · subst hu
      exact hnew
    · cases hstands with
      | code nonempty unmarked marked =>
          have hunmarked := unmarked_of_alike halike (unmarked_append.1 unmarked).1
          refine hnew.push_code hu hunmarked fun _ x hx => ?_
          rw [hc] at hx
          exact absurd (List.cons.inj hx).1 (by decide)
  have hsplice := hreads.splice (by simpa [Token.text] using halike.append u) (by simp [hne]) hrun
  have hchain : (pre ++ .code (u ++ (head ++ e)) :: post').IsChain
      fun a b => ¬ (a.isCode = true ∧ b.isCode = true) := by
    obtain ⟨hbefore, -, hjoin⟩ := List.isChain_append.1 hreads.isChain_code
    refine List.isChain_append.2 ⟨hbefore, hrun.isChain_code, fun t ht t' ht' => ?_⟩
    obtain rfl := Option.some.inj ht'
    exact hjoin t ht (.code (u ++ (head ++ tail))) rfl
  rw [foldr_push_of_isChain hchain, ← List.append_assoc] at hsplice
  have hfound : findClass? none (u ++ (head ++ e)) = some u.length := by
    rw [← List.append_assoc]
    exact findClass?_append (findClass?_of_head hsome hclass) e
  rw [start?_eq_classFrom? hsplice, classFrom?_append hpre, classFrom?_code, hfound]
  simp

/-! ## The end of the class -/

theorem locate_eq_ok_iff_balance {source : List Char} {span : Span} :
    locate source = .ok span ↔
      start? source = some span.start ∧
        ∃ ts final, Reads false .code (source.drop span.start) ts final ∧
          balance? 0 (charsFrom span.start ts) = some span.stop := by
  rw [locate_eq_ok_iff_reads]
  constructor
  · rintro ⟨hstart, a, w, x, c, final, hreads, hdepth, hstop⟩
    exact ⟨hstart, _, final, hreads,
      balance?_charsFrom_eq_some_iff.2 ⟨a, w, x, c, rfl, hdepth, hstop⟩⟩
  · rintro ⟨hstart, ts, final, hreads, hstop⟩
    obtain ⟨a, w, x, c, rfl, hdepth, hlength⟩ := balance?_charsFrom_eq_some_iff.1 hstop
    exact ⟨hstart, a, w, x, c, final, hreads, hdepth, hlength⟩

theorem codeText_push (t : Token) (ts : List Token) :
    codeText (t.push ts) = codeText [t] ++ codeText ts := by
  rw [← map_snd_charsFrom 0, charsFrom_push, map_snd_charsFrom, codeText_cons]

theorem codeText_foldr_push (xs ys : List Token) :
    codeText (xs.foldr Token.push ys) = codeText xs ++ codeText ys := by
  rw [← map_snd_charsFrom 0, charsFrom_foldr_push, map_snd_charsFrom, codeText_append]

theorem codeText_of_isCode {t : Token} (h : t.isCode = false) : codeText [t] = [] := by
  cases t with
  | code => cases h
  | _ => rfl

/-- With a line feed behind it, a text ends in code with one brace open. -/
def Closes (s : List Char) : Prop :=
  ∃ ts, scan (s ++ ['\n']) false = .ok ⟨ts, {}⟩ ∧ depthAfter? 0 (codeText ts) = some 1

theorem reads_quiet_brace {ms us : List Token} {rest : List Char} {final : Mode}
    (hms : ∀ t ∈ ms, Quiet t) (h : Reads false .code rest us final) :
    Reads false .code (ms.flatMap Token.text ++ '}' :: rest)
      (ms.foldr Token.push (Token.push (.code ['}']) us)) final := by
  have hbrace : Reads false .code (['}'] ++ rest) (Token.push (.code ['}']) us) final := by
    refine h.push_code (by simp) ((muted_singleton (by decide)).unmarked false rest) ?_
    exact fun htrue => absurd htrue (by decide)
  exact reads_quiet hms (by simp) hbrace

/-- Quiet members and a brace behind a text close its class exactly if it closes. -/
theorem locate_iff_closes {output before front m after : List Char} {k : Nat}
    (hm : Spells m braced) (hoffset : before.length = k) (hstart : start? output = some k)
    (hout : output = before ++ (front ++ ['\n'] ++ (m ++ '}' :: after))) :
    locate output = .ok ⟨k, k + (front ++ ['\n'] ++ m).length + 1⟩ ↔ Closes front := by
  obtain ⟨ms, hquiet, rfl, hbraced⟩ := hm
  subst hoffset hout
  constructor
  · intro h
    obtain ⟨-, a, w, x, c, final, hreads, hdepth, hstop⟩ := locate_eq_ok_iff_reads.1 h
    rw [List.drop_left] at hreads
    dsimp only at hstop
    have hcut := hreads.take_code (by decide) (by decide) (by decide)
    have hfront : a.flatMap Token.text ++ w = front ++ ['\n'] ++ ms.flatMap Token.text := by
      have htext : (a.flatMap Token.text ++ w) ++ '}' :: (x ++ c.flatMap Token.text) =
          (front ++ ['\n'] ++ ms.flatMap Token.text) ++ '}' :: after := by
        rw [List.append_assoc (front ++ ['\n']), ← hreads.flatMap_text]
        simp [Token.text]
      exact (List.append_inj htext (by omega)).1
    rw [← List.append_assoc, hfront, List.append_assoc] at hcut
    obtain ⟨ts, final', hts⟩ := exists_reads_plain .code (front ++ ['\n'])
    obtain rfl := hts.code_of_quiet hquiet (muted_singleton (by decide)) hcut
    have hall := hts.resume (reads_quiet_brace hquiet (.nil .code))
    have hcode : codeText a ++ w = codeText ts ++ codeText ms := by
      have htext := congrArg codeText (hcut.unique hall)
      rw [codeText_append, codeText_foldr_push, codeText_foldr_push] at htext
      have hclose : (codeText a ++ w) ++ ['}'] = (codeText ts ++ codeText ms) ++ ['}'] := by
        simpa [codeText, Token.push] using htext
      exact List.append_cancel_right hclose
    refine ⟨ts, scan_eq_ok_code_iff.2 hts, ?_⟩
    rw [hcode, depthAfter?_append] at hdepth
    obtain ⟨d, hd, hone⟩ := Option.bind_eq_some_iff.1 hdepth
    rw [hbraced, braced] at hone
    split at hone
    · cases hone
    · rw [hd, hone]
  · rintro ⟨ts, hscan, hdepth⟩
    obtain ⟨us, final, hus⟩ := exists_reads_plain .code after
    have hall := (scan_eq_ok_code_iff.1 hscan).resume (reads_quiet_brace hquiet hus)
    have hone : depthAfter? 0 (codeText (ts ++ ms) ++ []) = some 1 := by
      rw [List.append_nil, codeText_append, depthAfter?_append, hdepth]
      exact hbraced 1
    have hpush : ts.foldr Token.push (ms.foldr Token.push (Token.push (.code ['}']) us)) =
        (ts ++ ms ++ [Token.code ['}']]).foldr Token.push us := by
      rw [List.foldr_append, List.foldr_append]
      rfl
    refine locate_eq_ok_iff_balance.2 ⟨hstart, _, final, by rwa [List.drop_left], ?_⟩
    rw [hpush, charsFrom_foldr_push, List.append_assoc (ts ++ ms)]
    have hstop := balance?_charsFrom_of_depthAfter? hone before.length [] us
    have htext := (scan_eq_ok_code_iff.1 hscan).flatMap_text
    rw [List.append_nil, List.flatMap_append, htext] at hstop
    exact hstop

/-! ## The place of the directive -/

/-- A text that may stand in place of the token `t` where `depth` braces are open: it is one closed
comment or string, or `t` is a line comment and the text, read as a line of script, ends in code and
leaves as many braces open. -/
structure Harmless (t : Token) (text : List Char) (depth : Int) : Prop where
  start : text.head? ≠ some '*'
  body : (∃ t', t'.isCode = false ∧ scan text false = .ok ⟨[t'], {}⟩) ∨
    (∃ line, t = .lineComment line) ∧
      ∃ ts, scan (text ++ ['\n']) false = .ok ⟨ts, {}⟩ ∧ depthAfter? depth (codeText ts) = some depth

/-- In place of a token, a harmless text changes the depth behind it no more than the token does. -/
theorem Harmless.exists_reads {t : Token} {text s : List Char} {depth : Int} {us : List Token}
    {final : Mode} (h : Harmless t text depth)
    (hline : (∃ line, t = .lineComment line) → s.head? = some '\n')
    (hus : Reads false .code s us final) :
    ∃ ts, Reads false .code (text ++ s) ts final ∧
      depthAfter? depth (codeText ts) = depthAfter? depth (codeText us) := by
  rcases h.body with ⟨t', hcode, hscan⟩ | ⟨ht, ts, hscan, hdepth⟩
  · have hreads := scan_eq_ok_code_iff.1 hscan
    obtain ⟨next, hstands, htail⟩ := hreads.uncons
    obtain rfl := (htail.of_nil rfl).2
    have htext : t'.text = text := by simpa using hreads.flatMap_text
    refine ⟨t' :: us, htext ▸ .cons (hstands.of_closed hcode rfl s) hus, ?_⟩
    rw [codeText_cons, codeText_of_isCode hcode, List.nil_append]
  · obtain ⟨r, rfl⟩ := List.head?_eq_some_iff.1 (hline ht)
    obtain ⟨rs, final', hrs⟩ := exists_reads_plain .code r
    have hfeed : Reads false .code (['\n'] ++ r) (Token.push (.code ['\n']) rs) final' :=
      reads_tame (by simp) (by decide) hrs
    obtain rfl := hus.unique hfeed
    obtain rfl := hus.unique_final hfeed
    have hall := (scan_eq_ok_code_iff.1 hscan).resume hrs
    rw [List.append_assoc] at hall
    refine ⟨_, hall, ?_⟩
    rw [codeText_foldr_push, depthAfter?_append, hdepth, codeText_push]
    rfl

/-- The class that is generated from a body, in front of its members. -/
def Descriptor.front (d : Descriptor) (body : List Char) : List Char :=
  let code := if d.hasBaseClass then body
    else insertAfterClass d.className (" extends ".toList ++ baseClass) none body
  (trimEnd (replaceFirst d.directive d.construction code)).dropLast

theorem generate_eq_front (d : Descriptor) (body : List Char) :
    generate d body = d.front body ++ d.membersText ++ ['}'] ++ d.registration := by
  rw [← brace_registration]
  rfl

theorem EditSites.front_eq {body : List Char} {tag : Option (List Char)} {d : Descriptor}
    {k p : Nat} (sites : EditSites body tag d k p) :
    d.front body = body.take k ++ d.extension ++ (body.take p).drop k ++ d.construction ++
      (body.take (body.length - 1)).drop (p + d.directive.length) := by
  have hunit := sites.generate_eq_slices
  rw [generate_eq_front] at hunit
  exact List.append_cancel_right (List.append_cancel_right (List.append_cancel_right hunit))

/-- The directive of a body stands in a comment or a string, between `u` and `v`, where `depth`
braces are open. -/
structure DirectiveIn (body : List Char) (d : Descriptor) (t : Token) (u v : List Char)
    (depth : Int) : Prop where
  noCode : t.isCode = false
  text : t.text = u ++ d.directive ++ v
  place : ∃ xs ys, scan body false = .ok ⟨xs ++ t :: ys, {}⟩ ∧
    findFirst? d.directive body = some (xs.flatMap Token.text ++ u, v ++ ys.flatMap Token.text) ∧
    depthAfter? 0 (codeText xs) = some depth

theorem exists_reads_behind_head {body head tail : List Char} {post : List Token}
    (h : Reads false .code body (.code (head ++ tail) :: post) .code) (htame : head.all isTame = true) :
    ∃ xs mode, Reads false mode (tail ++ post.flatMap Token.text) (xs ++ post) .code ∧
      xs.flatMap Token.text = tail ∧ codeText xs = tail := by
  by_cases htail : tail = []
  · subst htail
    have hpost : Reads false .code body ([.code (head ++ [])] ++ post) .code := h
    obtain ⟨mid, hmid⟩ := hpost.drop
    exact ⟨[], mid, hmid, rfl, rfl⟩
  · have hpost : Reads false .code body ([] ++ .code (head ++ tail) :: post) .code := h
    have hdrop : Reads false .code (tail ++ post.flatMap Token.text) (.code tail :: post) .code := by
      refine hpost.drop_code htail fun rest hrest => ?_
      rwa [colonAfter_of_isTame htame] at hrest
    exact ⟨[.code tail], .code, hdrop, by simp [Token.text], by simp [codeText]⟩

theorem readClass?_of_head {head name tail : List Char}
    (h : readClass? (head ++ tail) = some (name, tail)) : readClass? head = some (name, []) := by
  obtain ⟨blanks, hne, hblank, hstart, hident, -, hs⟩ := readClass?_eq_some_iff.1 h
  rw [List.append_cancel_right hs]
  refine readClass?_eq_some_iff.2 ⟨blanks, hne, hblank, hstart, hident, rfl, ?_⟩
  rw [List.append_nil]

/-- A line feed may stand in place of the brace that ends a body. -/
theorem reads_line_feed {mode : Mode} {s w : List Char} {zs : List Token}
    (h : Reads false mode s (zs ++ [.code (w ++ ['}'])]) .code) :
    Reads false .code (zs.flatMap Token.text ++ (w ++ ['\n']))
      (zs.foldr Token.push [.code (w ++ ['\n'])]) .code := by
  have halike : Alike ['}'] ['\n'] := alike_of_ne (by decide) (by decide) (by decide) [] []
  obtain ⟨mid, hmid⟩ := h.drop
  obtain ⟨next, hstands, -⟩ := hmid.uncons
  have hunmarked : Unmarked false false (w ++ ['\n']) [] := by
    cases hstands with
    | code nonempty unmarked marked =>
        refine unmarked_append.2 ⟨?_, (muted_singleton (by decide)).unmarked _ []⟩
        exact unmarked_of_alike halike (unmarked_append.1 unmarked).1
  have hline : Stands false (.code (w ++ ['\n'])) .code [] := .code (by simp) hunmarked trivial
  have hlast : Reads false .code ((w ++ ['\n']) ++ []) [.code (w ++ ['\n'])] .code :=
    .cons hline (.nil .code)
  rw [List.append_nil] at hlast
  have hsplice := h.splice (by simpa [Token.text] using halike.append w) (by simp) hlast
  exact hsplice.of_ne_nil (by simp) .code

/-- Where a body is cut at its head and at its directive, its front is known. -/
theorem EditSites.front_of_append {body head x v : List Char} {tag : Option (List Char)}
    {d : Descriptor} {k p : Nat} (sites : EditSites body tag d k p)
    (hbody : body = head ++ x ++ d.directive ++ v ++ ['}']) (hk : k = head.length)
    (hp : p = (head ++ x).length) :
    d.front body = head ++ d.extension ++ x ++ d.construction ++ v := by
  have hhead : body.take k = head := by
    rw [hbody, hk]
    simp [List.append_assoc]
  have hx : (body.take p).drop k = x := by
    rw [hbody, hp, hk, List.append_assoc (head ++ x), List.append_assoc (head ++ x), List.take_left,
      List.drop_left]
  have hv : (body.take (body.length - 1)).drop (p + d.directive.length) = v := by
    have hlength : p + d.directive.length = (head ++ x ++ d.directive).length := by
      simp [hp, Nat.add_assoc]
    rw [← List.dropLast_eq_take, hlength, hbody, List.dropLast_concat, List.drop_left]
  rw [sites.front_eq, hhead, hx, hv]

theorem Descriptor.isTame_extension (d : Descriptor) : d.extension.all isTame = true := by
  unfold Descriptor.extension
  split <;> decide

/-- What follows a line comment is a line feed, whatever ends the text. -/
theorem head?_of_lineComment {t : Token} {s : List Char} {mode : Mode}
    (h : Stands false t mode (s ++ ['}'])) (ht : ∃ line, t = .lineComment line) :
    (s ++ ['\n']).head? = some '\n' := by
  obtain ⟨line, rfl⟩ := ht
  cases h with
  | lineComment oneLine stop =>
      cases s with
      | nil => simp at stop
      | cons c s => simpa using stop

theorem Harmless.head?_append {t : Token} {text s : List Char} {depth : Int}
    (h : Harmless t text depth) (hline : (∃ line, t = .lineComment line) → s.head? = some '\n') :
    (text ++ s).head? ≠ some '*' := by
  by_cases htext : text = []
  · subst htext
    rcases h.body with ⟨t', -, hscan⟩ | ⟨ht, -⟩
    · obtain ⟨next, hstands, -⟩ := (scan_eq_ok_code_iff.1 hscan).uncons
      exact absurd (by simpa using (scan_eq_ok_code_iff.1 hscan).flatMap_text) hstands.text_ne_nil
    · rw [List.nil_append, hline ht]
      decide
  · rw [List.head?_append_of_ne_nil _ htext]
    exact h.start

/-- A class closes in front of its last brace if a harmless text takes the place of a token that
holds two slashes, from there to the end of the token. -/
theorem closes_of_harmless {body head tail extension u r z w : List Char} {xs zs : List Token}
    {t : Token} {depth : Int}
    (hbody : Reads false .code body
      (.code (head ++ tail) :: (xs ++ t :: (zs ++ [.code (w ++ ['}'])]))) .code)
    (hhead : head ≠ []) (htame : head.all isTame = true) (hextension : extension.all isTame = true)
    (htext : t.text = u ++ '/' :: '/' :: z)
    (hdepth : depthAfter? 0 (codeText (.code (head ++ tail) :: xs)) = some depth)
    (hclose : depthAfter? depth (codeText zs ++ w) = some 1)
    (hharmless : Harmless t (u ++ r) depth) :
    Closes (head ++ extension ++ (tail ++ xs.flatMap Token.text ++ u) ++
      (r ++ (zs.flatMap Token.text ++ w))) := by
  obtain ⟨xs', mode, hrest, htail, hcode⟩ := exists_reads_behind_head hbody htame
  rw [← List.append_assoc] at hrest
  obtain ⟨mid, hmid⟩ := hrest.drop
  obtain ⟨next, hstands, hbehind⟩ := hmid.uncons
  have hfeed := reads_line_feed hbehind
  have hline : (∃ line, t = .lineComment line) →
      (zs.flatMap Token.text ++ (w ++ ['\n'])).head? = some '\n' := by
    have hbrace : Stands false t next (zs.flatMap Token.text ++ w ++ ['}']) := by
      simpa [Token.text] using hstands
    rw [← List.append_assoc]
    exact head?_of_lineComment hbrace
  obtain ⟨ts, hts, hsame⟩ := hharmless.exists_reads hline hfeed
  have halike : Alike ((t :: (zs ++ [.code (w ++ ['}'])])).flatMap Token.text)
      (u ++ r ++ (zs.flatMap Token.text ++ (w ++ ['\n']))) := by
    rw [List.flatMap_cons, htext, List.append_assoc u, List.append_assoc u]
    refine alike_of_slashes u _ fun hu => ?_
    have hstart := hharmless.head?_append hline
    rwa [hu, List.nil_append] at hstart
  have hsplice := (hrest.splice halike (by simp) hts).of_ne_nil (by simp) .code
  have hfront : (head ++ extension).all isTame = true := by
    rw [List.all_append, htame, hextension]
    rfl
  have hnew := reads_tame (List.append_ne_nil_of_left_ne_nil hhead extension) hfront hsplice
  have hspell : head ++ extension ++ ((xs' ++ xs).flatMap Token.text ++
      (u ++ r ++ (zs.flatMap Token.text ++ (w ++ ['\n'])))) =
      head ++ extension ++ (tail ++ xs.flatMap Token.text ++ u) ++
        (r ++ (zs.flatMap Token.text ++ w)) ++ ['\n'] := by
    rw [List.flatMap_append, htail]
    simp only [List.append_assoc]
  rw [hspell] at hnew
  refine ⟨_, scan_eq_ok_code_iff.2 hnew, ?_⟩
  have hall : codeText (Token.push (.code (head ++ extension)) ((xs' ++ xs).foldr Token.push ts)) =
      (head ++ extension) ++ ((tail ++ codeText xs) ++ codeText ts) := by
    rw [codeText_push, codeText_foldr_push, codeText_append, hcode]
    simp [codeText]
  have hbefore : depthAfter? 0 (tail ++ codeText xs) = some depth := by
    have hsplit : codeText (.code (head ++ tail) :: xs) = head ++ (tail ++ codeText xs) := by
      simp [codeText]
    rwa [hsplit, depthAfter?_append, depthAfter?_of_isTame htame] at hdepth
  have hlast : codeText (zs.foldr Token.push [.code (w ++ ['\n'])]) =
      (codeText zs ++ w) ++ ['\n'] := by
    rw [codeText_foldr_push]
    simp [codeText]
  rw [hall, depthAfter?_append, depthAfter?_of_isTame hfront, Option.bind_some,
    depthAfter?_append, hbefore, Option.bind_some, hsame, hlast, depthAfter?_append, hclose]
  rfl

/-- The front of a class closes if what takes the place of its directive is harmless. -/
theorem closes_front {body w u v : List Char} {tag : Option (List Char)} {d : Descriptor} {k p : Nat}
    {a : List Token} {t : Token} {depth : Int} (sites : EditSites body tag d k p)
    (hreads : Reads false .code body (a ++ [.code (w ++ ['}'])]) .code)
    (hdepth : depthAfter? 0 (codeText a ++ w) = some 1) (hin : DirectiveIn body d t u v depth)
    (hharmless : Harmless t (u ++ d.construction ++ v) depth) : Closes (d.front body) := by
  obtain ⟨xs, ys, hscan, hfirst, hxs⟩ := hin.place
  have hbody := scan_eq_ok_code_iff.1 hscan
  have hts := hbody.unique hreads
  obtain ⟨zs, rfl, rfl⟩ : ∃ zs, ys = zs ++ [.code (w ++ ['}'])] ∧ a = xs ++ t :: zs := by
    rcases List.eq_nil_or_concat ys with rfl | ⟨zs, z, rfl⟩
    · have hlast := congrArg List.getLast? hts
      rw [List.getLast?_concat, List.getLast?_concat] at hlast
      have hcode := hin.noCode
      rw [Option.some.inj hlast] at hcode
      cases hcode
    · rw [List.concat_eq_append, ← List.cons_append, ← List.append_assoc] at hts
      obtain ⟨ha, hz⟩ := List.append_inj' hts rfl
      exact ⟨zs, by rw [List.concat_eq_append, hz], ha.symm⟩
  obtain ⟨head, tail, post, hpost, hhead, hrest⟩ := exists_head_token hbody sites.head
  obtain ⟨xs', rfl, rfl⟩ : ∃ xs', xs = .code (head ++ tail) :: xs' ∧
      post = xs' ++ t :: (zs ++ [.code (w ++ ['}'])]) := by
    cases xs with
    | nil =>
        have hcode := hin.noCode
        rw [(List.cons.inj hpost).1] at hcode
        cases hcode
    | cons x xs =>
        obtain ⟨rfl, htail⟩ := List.cons.inj hpost
        exact ⟨xs, rfl, htail.symm⟩
  have hclass := readClass?_of_head hhead
  have hne : head ≠ [] := by
    rintro rfl
    cases hclass
  obtain ⟨found, hfound, hdirective, -⟩ := sites.directive
  obtain ⟨gap, stop, _, -, -, -, -, -, hslashes⟩ := readDirective?_eq_some_iff.1 hfound
  have hp : p = (head ++ (tail ++ xs'.flatMap Token.text ++ u)).length := by
    have hsite := findFirst?_directive hfound sites.leftmost
    rw [hdirective, hfirst] at hsite
    have htake : head ++ tail ++ xs'.flatMap Token.text ++ u = body.take p :=
      (Prod.mk.inj (Option.some.inj hsite)).1
    have hinside := sites.inside
    rw [← List.append_assoc, ← List.append_assoc, htake, List.length_take]
    omega
  rw [hdirective] at hslashes
  have hspell : body = head ++ (tail ++ xs'.flatMap Token.text ++ u) ++ d.directive ++
      (v ++ (zs.flatMap Token.text ++ w)) ++ ['}'] := by
    have hcode : ∀ s, (Token.code s).text = s := fun _ => rfl
    rw [← hbody.flatMap_text]
    simp [hcode, hin.text]
  have hk : k = head.length := by
    have hlength := congrArg List.length hrest
    have htext := congrArg List.length hbody.flatMap_text
    have horder := sites.order
    have hinside := sites.inside
    simp only [List.length_drop, List.length_append, List.cons_append, List.flatMap_cons,
      Token.text] at hlength htext
    omega
  rw [sites.front_of_append hspell hk hp]
  have htext : t.text =
      u ++ '/' :: '/' :: (gap ++ '<' :: (found.tag ++ (found.specs ++ stop)) ++ v) := by
    rw [hin.text, hslashes, List.append_assoc]
    rfl
  have hclose : depthAfter? depth (codeText zs ++ w) = some 1 := by
    rw [codeText_append, codeText_cons t zs, codeText_of_isCode hin.noCode, List.nil_append,
      List.append_assoc, depthAfter?_append, hxs] at hdepth
    exact hdepth
  rw [List.append_assoc] at hharmless
  have hclosed := closes_of_harmless hbody hne (isTame_head hclass) d.isTame_extension htext hxs
    hclose hharmless
  rwa [List.append_assoc d.construction, ← List.append_assoc _ d.construction] at hclosed

/-- Tame words behind the directive are harmless inside of the class, and with a constructor of its
own anywhere. -/
theorem harmless_of_isTame {d : Descriptor} {line v : List Char} {depth : Int}
    (hv : v.all isTame = true) (hstar : v.head? ≠ some '*')
    (hdepth : d.hasConstructor = true ∨ depth ≠ 0) :
    Harmless (.lineComment line) (d.construction ++ v) depth := by
  have hconstruction : d.construction.all isMuted = true ∧
      depthAfter? depth d.construction = some depth ∧ (d.construction ++ v).head? ≠ some '*' := by
    unfold Descriptor.construction
    split
    · exact ⟨rfl, rfl, hstar⟩
    · rename_i hnone
      have hne : depth ≠ 0 := hdepth.resolve_left hnone
      have hhead : defaultConstructor.head? = some 'c' := by decide
      refine ⟨by decide, ?_, ?_⟩
      · show (if depth + 1 = 1 then none else some (depth + 1 - 1)) = some depth
        rw [if_neg (by omega), Int.add_sub_cancel]
      · rw [List.head?_append, hhead]
        exact fun hstar => absurd (Option.some.inj hstar) (by decide)
  obtain ⟨hmuted, hsame, hstart⟩ := hconstruction
  have hall : (d.construction ++ v ++ ['\n']).all isMuted = true := by
    rw [List.all_append, List.all_append, hmuted, isMuted_of_isTame hv]
    rfl
  have hstands : Stands false (.code (d.construction ++ v ++ ['\n'])) .code [] :=
    .code (by simp) ((muted_of_all hall).unmarked false []) trivial
  have hreads : Reads false .code (d.construction ++ v ++ ['\n'] ++ [])
      [.code (d.construction ++ v ++ ['\n'])] .code := .cons hstands (.nil .code)
  rw [List.append_nil] at hreads
  refine ⟨hstart, .inr ⟨⟨line, rfl⟩, _, scan_eq_ok_code_iff.2 hreads, ?_⟩⟩
  have hcode : codeText [.code (d.construction ++ v ++ ['\n'])] = d.construction ++ (v ++ ['\n']) := by
    simp [codeText]
  rw [hcode, depthAfter?_append, hsame, Option.bind_some, depthAfter?_append,
    depthAfter?_of_isTame hv]
  rfl

/-- If the accessors of a compiled component are named by identifiers, its class starts again where
its body did. It ends in front of its registration exactly if its front closes, and its front closes
if the directive stands in a comment or a string and what takes its place there is harmless. -/
theorem compile_oneClass {renderer : Renderer} {source : List Char} {tag : Option (List Char)}
    {c : Compiled} (h : compile renderer source tag = .ok c)
    (hident : ∀ a ∈ c.descriptor.attributes, isIdentifier a.identifier = true) :
    start? c.output = some c.span.start ∧
      ∃ stop, stop ≤ c.output.length ∧
        c.output.drop stop = c.descriptor.registration ++ c.script.drop c.span.stop ∧
        (locate c.output = .ok ⟨c.span.start, stop⟩ ↔
          Closes (c.descriptor.front (c.span.slice c.script))) ∧
        ∀ t u v depth, DirectiveIn (c.span.slice c.script) c.descriptor t u v depth →
          Harmless t (u ++ c.descriptor.construction ++ v) depth →
          locate c.output = .ok ⟨c.span.start, stop⟩ := by
  obtain ⟨-, -, hspan, hdescribe, houtput⟩ := compile_eq_ok h
  obtain ⟨k, p, sites⟩ := exists_editSites hspan hdescribe
  obtain ⟨m, hm, hspells⟩ := exists_spells_members hident
  obtain ⟨a, w, hreads, -, hdepth⟩ := exists_reads_slice hspan
  have hlt := (getLast?_slice_of_locate hspan).1
  have hle := (getLast?_slice_of_locate hspan).2.1
  have hlength : (c.script.take c.span.start).length = c.span.start := by
    rw [List.length_take]
    omega
  have hout : c.output = c.script.take c.span.start ++
      (c.descriptor.front (c.span.slice c.script) ++ ['\n'] ++
        (m ++ '}' :: (c.descriptor.registration ++ c.script.drop c.span.stop))) := by
    rw [houtput, generate_eq_front, hm]
    simp only [List.append_assoc, List.cons_append, List.nil_append]
  have hstart : start? c.output = some c.span.start := by
    have hclass : readClass? ((c.span.slice c.script).take k ++ (c.span.slice c.script).drop k) =
        some (c.descriptor.className, (c.span.slice c.script).drop k) := by
      rw [List.take_append_drop]
      exact sites.head
    have hfront : (c.span.slice c.script).take k <+: c.script.drop c.span.start := by
      rw [Span.slice_eq_take_drop, List.take_take]
      exact List.take_prefix _ _
    rw [hout, sites.front_eq]
    simp only [List.append_assoc]
    exact start?_of_head (locate_eq_ok_iff.1 hspan).1 (readClass?_of_head hclass) hfront _
  have hiff := locate_iff_closes hspells hlength hstart hout
  have hdrop := drop_behind (c.script.take c.span.start)
    (c.descriptor.front (c.span.slice c.script) ++ ['\n'] ++ m)
    (c.descriptor.registration ++ c.script.drop c.span.stop) '}'
  refine ⟨hstart, _, ?_, ?_, hiff, fun t u v depth hin hharmless => ?_⟩
  · rw [hout]
    simp only [List.length_append, hlength, List.length_cons]
    omega
  · rwa [hlength, List.append_assoc _ m, ← hout] at hdrop
  · exact hiff.2 (closes_front sites hreads hdepth hin hharmless)

theorem exists_compile {renderer : Renderer} {source : List Char} {tag : Option (List Char)}
    {α : Type} {f : Compiled → α} {x : α} (h : (compile renderer source tag).toOption.map f = some x) :
    ∃ c, compile renderer source tag = .ok c ∧ f c = x := by
  cases hc : compile renderer source tag with
  | error e =>
      rw [hc] at h
      cases h
  | ok c =>
      rw [hc] at h
      exact ⟨c, rfl, Option.some.inj h⟩

/-- A component between other statements, with words behind its directive. -/
theorem compile_oneClass_words :
    ∃ c stop, compile {} "let y;class A \x7b\n// <a-b x! .on /> it is\n\x7d;".toList none = .ok c ∧
      (∀ a ∈ c.descriptor.attributes, isIdentifier a.identifier = true) ∧
      locate c.output = .ok ⟨6, stop⟩ ∧
      c.output.drop stop = "\n\ncustomElements.define('a-b', A);;".toList := by
  let d : Descriptor := ⟨"a-b".toList, ['A'], [⟨['x'], .plain true⟩, ⟨"on".toList, .classToggle⟩],
    "// <a-b x! .on />".toList, false, false⟩
  let body := "class A \x7b\n// <a-b x! .on /> it is\n\x7d".toList
  have hout : (compile {} "let y;class A \x7b\n// <a-b x! .on /> it is\n\x7d;".toList
      none).toOption.map (fun c => (c.span.start, c.span.slice c.script, c.descriptor,
        c.script.drop c.span.stop)) = some (6, body, d, [';']) := by
    decide +kernel
  obtain ⟨c, hc, hfacts⟩ := exists_compile hout
  simp only [Prod.mk.injEq] at hfacts
  obtain ⟨hstart, hslice, hd, hrest⟩ := hfacts
  have hident : ∀ a ∈ c.descriptor.attributes, isIdentifier a.identifier = true := by
    rw [hd]
    exact List.all_eq_true.1 (by decide)
  obtain ⟨-, stop, -, hdrop, -, hlocate⟩ := compile_oneClass hc hident
  have hin : DirectiveIn body d (.lineComment "// <a-b x! .on /> it is".toList) [] " it is".toList 1 := by
    refine ⟨rfl, by decide, [.code "class A \x7b\n".toList], [.code "\n\x7d".toList], ?_, ?_, ?_⟩ <;>
      decide +kernel
  have hharmless : Harmless (.lineComment "// <a-b x! .on /> it is".toList)
      (d.construction ++ " it is".toList) 1 :=
    harmless_of_isTame (by decide) (by decide) (.inr (by decide))
  rw [hslice, hd, hstart] at hlocate
  refine ⟨c, stop, hc, hident, hlocate _ _ _ _ hin hharmless, ?_⟩
  rw [hdrop, hd, hrest]
  decide

/-- A quote behind the directive opens a string, and the class is not closed. -/
theorem compile_unclosed :
    ∃ c, compile {} "class A \x7b\n// <a-b /> it's\n\x7d".toList none = .ok c ∧
      (∀ a ∈ c.descriptor.attributes, isIdentifier a.identifier = true) ∧
      locate c.output = .error (.unclosedBody 1) := by
  have hout : (compile {} "class A \x7b\n// <a-b /> it's\n\x7d".toList none).toOption.map
      (fun c => (c.descriptor.attributes, locate c.output)) =
      some ([], .error (.unclosedBody 1)) := by
    decide +kernel
  obtain ⟨c, hc, hfacts⟩ := exists_compile hout
  obtain ⟨hattributes, hlocate⟩ := Prod.mk.inj hfacts
  refine ⟨c, hc, ?_, hlocate⟩
  rw [hattributes]
  exact fun a ha => nomatch ha

end ElementBundle.Component
