import ElementBundle.Proofs.Source.Calculus
import ElementBundle.Source.Lexer

/-! # What a lexer observes

A lexer that has been through any sources, and may have failed in the middle of
one, tokenizes the next source as `scan` does: the tokens and their places are
those of `place`, a failure names the same line, and the state at the end is the
same. Offsets come from the starts of runs and lines from the table of line
feeds, so this also ties `placeFrom` and `lineAt` to them.
-/

namespace ElementBundle.Source

open ElementBundle.Text ElementBundle.Markup

/-! ## Lines -/

theorem newlines_append (a b : List Char) : newlines (a ++ b) = newlines a + newlines b :=
  List.count_append

theorem le_of_mem_lineFeedsFrom {s : List Char} {offset n : Nat} (h : n ∈ lineFeedsFrom offset s) :
    offset ≤ n := by
  induction s generalizing offset with
  | nil => cases h
  | cons c s ih =>
      rw [lineFeedsFrom] at h
      split at h
      · rcases List.mem_cons.1 h with rfl | h
        · exact Nat.le_refl _
        · exact Nat.le_of_succ_le (ih h)
      · exact Nat.le_of_succ_le (ih h)

theorem length_takeWhile_lineFeedsFrom (s : List Char) (offset k : Nat) :
    ((lineFeedsFrom offset s).takeWhile (· < offset + k)).length = newlines (s.take k) := by
  induction s generalizing offset k with
  | nil => simp [lineFeedsFrom, newlines]
  | cons c s ih =>
      cases k with
      | zero =>
          have hnone : (lineFeedsFrom offset (c :: s)).takeWhile (· < offset + 0) = [] := by
            cases hlist : lineFeedsFrom offset (c :: s) with
            | nil => rfl
            | cons n ns =>
                have hn : offset ≤ n := le_of_mem_lineFeedsFrom (by rw [hlist]; exact .head ns)
                rw [List.takeWhile_cons_of_neg (by simpa using hn)]
          rw [hnone]
          rfl
      | succ k =>
          have hnext := ih (offset + 1) k
          rw [show offset + 1 + k = offset + (k + 1) by omega] at hnext
          rw [lineFeedsFrom]
          split
          · rename_i hc
            rw [List.takeWhile_cons_of_pos (by simp), List.length_cons, hnext, hc]
            simp [newlines]
          · rename_i hc
            rw [hnext]
            simp [newlines, hc]

theorem Lexer.lineAt_eq {l : Lexer} (h : l.lineFeeds = lineFeedsFrom 0 l.source) (offset : Nat) :
    l.lineAt offset = Source.lineAt l.source offset := by
  have := length_takeWhile_lineFeedsFrom l.source 0 offset
  rw [Nat.zero_add] at this
  rw [Lexer.lineAt, h, this, Source.lineAt]

/-! ## Runs of characters -/

/-- The lexer is at an offset; the present run has begun behind `front` and holds `text`. -/
structure Lexer.Amid (l : Lexer) (front text rest : List Char) (offset : Nat) : Prop where
  source : l.source = front ++ text ++ rest
  start : l.runStart = front.length
  offset : offset = front.length + text.length

/-- The lexer after a token that starts with the present run. -/
def Lexer.push (l : Lexer) (t : Token) (mode : Mode) : Lexer :=
  { l with
    state := { l.state with mode }
    tokens := l.tokens ++ [⟨t, l.runStart, l.lineAt l.runStart⟩]
    runStart := l.runStart + t.text.length }

section
variable {l : Lexer} {markup : Bool} {front text rest s : List Char} {offset : Nat}

theorem Lexer.Amid.cons {c : Char} (h : l.Amid front text (c :: s) offset) :
    l.Amid front (text ++ [c]) s (offset + 1) := by
  refine ⟨by simpa using h.source, h.start, ?_⟩
  rw [h.offset, List.length_append]
  rfl

theorem Lexer.Amid.enter (h : l.Amid front text rest offset) (mode : Mode) :
    (l.enter mode).Amid front text rest offset :=
  ⟨h.source, h.start, h.offset⟩

theorem Lexer.closeRun_of_start {stop : Nat} (h : l.runStart = stop) (kind : List Char → Token) :
    l.closeRun kind stop = l := by
  subst h
  simp [Lexer.closeRun]

theorem Lexer.Amid.closeRun (h : l.Amid front text rest offset) (hne : text ≠ [])
    (kind : List Char → Token) (hkind : (kind text).text = text) :
    l.closeRun kind offset = l.push (kind text) l.state.mode := by
  have hpos := List.length_pos_iff.2 hne
  have hlt : l.runStart < offset := by
    rw [h.start, h.offset]
    omega
  have hslice : (l.source.take offset).drop l.runStart = text := by
    rw [h.source, h.start, h.offset, ← List.length_append, List.take_left, List.drop_left]
  rw [Lexer.closeRun, Lexer.push, if_pos hlt, hslice, hkind, h.start, h.offset]

/-! ## Going through a text -/

theorem Lexer.run_cons (l : Lexer) (markup afterColon : Bool) (offset : Nat) (c : Char)
    (s : List Char) :
    l.run markup ⟨0, afterColon⟩ offset (c :: s) =
      match l.step markup afterColon offset c s with
      | (.error e, l) => (.error e, l)
      | (.ok next, l) => l.run markup next (offset + 1) s :=
  rfl

theorem Lexer.run_skip (l : Lexer) (markup afterColon : Bool) (n offset : Nat) (s : List Char) :
    l.run markup ⟨n, afterColon⟩ offset s =
      l.run markup ⟨0, afterColon⟩ (offset + n) (s.drop n) := by
  induction n generalizing offset s with
  | zero => rfl
  | succ n ih =>
      cases s with
      | nil => rfl
      | cons c s =>
          have hpass : l.run markup ⟨n + 1, afterColon⟩ offset (c :: s) =
            l.run markup ⟨n, afterColon⟩ (offset + 1) s := rfl
          rw [hpass, ih, List.drop_succ_cons, show offset + 1 + n = offset + (n + 1) by omega]

theorem Lexer.run_nil_of_start (h : l.runStart = l.source.length) (next : Advance) (offset : Nat) :
    l.run markup next offset [] = (.ok (), l) := by
  rw [Lexer.run, Lexer.closeRun_of_start h]

/-- A run that is open at the end of the source becomes its last token. -/
theorem Lexer.Amid.run_nil (h : l.Amid front text [] offset) (hne : text ≠ [])
    {kind : List Char → Token} (hkind : runKind l.state.mode = kind)
    (htext : (kind text).text = text) (next : Advance) (offset' offset'' : Nat) :
    l.run markup next offset' [] =
      (l.push (kind text) l.state.mode).run markup {} offset'' [] := by
  have hlength : l.source.length = offset := by
    rw [h.source, h.offset, List.append_nil, List.length_append]
  have hstart : (l.push (kind text) l.state.mode).runStart = l.source.length := by
    rw [hlength, h.offset, ← h.start, Lexer.push, htext]
  rw [Lexer.run_nil_of_start hstart, Lexer.run, hkind, hlength, h.closeRun hne kind htext]

theorem Lexer.run_lineComment (hmode : l.state.mode = .lineComment)
    (h : l.Amid front text s offset) (hne : text ≠ []) :
    l.run markup {} offset s =
      (l.push (.lineComment (text ++ s.takeWhile (· ≠ '\n')))
        (if (s.dropWhile (· ≠ '\n')).isEmpty then .lineComment else .code)).run markup {}
          (offset + (s.takeWhile (· ≠ '\n')).length) (s.dropWhile (· ≠ '\n')) := by
  induction s generalizing text offset with
  | nil => simpa [hmode] using h.run_nil hne (by rw [hmode]; rfl) rfl {} offset offset
  | cons c s ih =>
      by_cases hc : c = '\n'
      · subst hc
        have hclose := h.closeRun hne .lineComment rfl
        have hnone : opener? markup false '\n' s = none := by simp [opener?, isQuote]
        have hstep : l.step markup false offset '\n' s =
            (.ok {}, l.push (.lineComment text) .code) := by
          simp only [Lexer.step, hmode, Lexer.stepComment, if_true, hclose]
          rfl
        have hnext : (l.push (.lineComment text) .code).step markup false offset '\n' s =
            (.ok {}, l.push (.lineComment text) .code) := by
          simp only [Lexer.step, Lexer.push, Lexer.stepCode, hnone]
          rfl
        have htake : ('\n' :: s).takeWhile (· ≠ '\n') = [] := rfl
        have hdrop : ('\n' :: s).dropWhile (· ≠ '\n') = '\n' :: s := rfl
        rw [htake, hdrop, List.append_nil, Lexer.run_cons, hstep]
        simp [Lexer.run_cons, hnext]
      · have hstep : l.step markup false offset c s = (.ok {}, l) := by
          simp only [Lexer.step, hmode, Lexer.stepComment, if_true, if_neg hc]
        rw [Lexer.run_cons, hstep]
        simpa [hc, Nat.add_assoc, Nat.add_comm, Nat.add_left_comm] using ih h.cons (by simp)

theorem Lexer.run_blockComment (hmode : l.state.mode = .blockComment)
    (h : l.Amid front text s offset) (hne : text ≠ []) :
    l.run markup {} offset s =
      match findFirst? ['*', '/'] s with
      | some (body, rest) =>
        (l.push (.blockComment (text ++ body ++ ['*', '/'])) .code).run markup {}
          (offset + (body ++ ['*', '/']).length) rest
      | none =>
        (l.push (.blockComment (text ++ s)) .blockComment).run markup {} (offset + s.length) [] := by
  induction s generalizing text offset with
  | nil =>
      simpa [hmode, findFirst?, dropLeading?] using
        h.run_nil hne (by rw [hmode]; rfl) rfl {} offset offset
  | cons c s ih =>
      cases hend : dropLeading? ['*', '/'] (c :: s) with
      | some rest =>
          have hsplit := dropLeading?_eq_some_iff.1 hend
          simp only [List.cons_append, List.nil_append, List.cons.injEq] at hsplit
          obtain ⟨rfl, rfl⟩ := hsplit
          have hclose := h.cons.cons.closeRun (by simp) .blockComment rfl
          have hstep : l.step markup false offset '*' ('/' :: rest) =
              (.ok { skip := 1 }, l.push (.blockComment (text ++ ['*', '/'])) .code) := by
            simp only [Lexer.step, hmode, Lexer.stepComment, hend]
            simp [show offset + 2 = offset + 1 + 1 from rfl, hclose]
            rfl
          rw [Lexer.run_cons, hstep]
          simp [findFirst?, hend, Lexer.run_skip _ _ _ 1]
      | none =>
          have hstep : l.step markup false offset c s = (.ok {}, l) := by
            simp [Lexer.step, hmode, Lexer.stepComment, hend]
          rw [Lexer.run_cons, hstep]
          have hnext := ih h.cons (by simp)
          simp only [hnext, findFirst?, hend]
          cases findFirst? ['*', '/'] s with
          | none => simp [Nat.add_comm, Nat.add_left_comm]
          | some found => simp [Nat.add_assoc, Nat.add_comm, Nat.add_left_comm]

theorem Lexer.run_string {q : Char} (hmode : l.state.mode = .string q)
    (h : l.Amid front text s offset) (hne : text ≠ []) :
    l.run markup {} offset s =
      (l.push (.string (text ++ (readString q s).1))
        (if (readString q s).2.1 then .code else .string q)).run markup {}
          (offset + (readString q s).1.length) (readString q s).2.2 := by
  induction s using escapedInduction generalizing text offset with
  | nil => simpa [hmode, readString] using h.run_nil hne (by rw [hmode]; rfl) rfl {} offset offset
  | backslash =>
      have hstep : l.step markup false offset '\\' [] = (.ok { skip := 1 }, l) := by
        simp [Lexer.step, hmode, Lexer.stepString]
      rw [Lexer.run_cons, hstep]
      simpa [hmode, readString] using
        h.cons.run_nil (by simp) (by rw [hmode]; rfl) rfl { skip := 1 } (offset + 1) (offset + 1)
  | escape c s ih =>
      have hstep : l.step markup false offset '\\' (c :: s) = (.ok { skip := 1 }, l) := by
        simp [Lexer.step, hmode, Lexer.stepString]
      have hlength : offset + ('\\' :: c :: (readString q s).1).length =
          offset + 1 + 1 + (readString q s).1.length := by
        simp only [List.length_cons]
        omega
      rw [Lexer.run_cons, hstep, readString_escape, hlength]
      simpa [Lexer.run_skip _ _ _ 1] using ih h.cons.cons (by simp)
  | plain c s hc ih =>
      rw [Lexer.run_cons, readString_plain hc]
      by_cases hq : c = q
      · subst hq
        have hclose := h.cons.closeRun (by simp) .string rfl
        have hstep : l.step markup false offset c s =
            (.ok {}, l.push (.string (text ++ [c])) .code) := by
          simp [Lexer.step, hmode, Lexer.stepString, hc, hclose]
          rfl
        simp [hstep]
      · have hstep : l.step markup false offset c s = (.ok {}, l) := by
          simp [Lexer.step, hmode, Lexer.stepString, hc, hq]
        rw [hstep, if_neg hq]
        simpa [Nat.add_assoc, Nat.add_comm, Nat.add_left_comm] using ih h.cons (by simp)

theorem opener?_of_afterColon {afterColon : Bool} {c : Char} {s : List Char}
    (h : (opener? markup afterColon c s).isSome = true) :
    opener? markup false c s = opener? markup afterColon c s := by
  cases afterColon with
  | false => rfl
  | true =>
      unfold opener? at h ⊢
      split
      · rename_i hc
        rw [if_pos hc] at h
        split at h <;> simp_all
      · rfl

theorem Lexer.run_code (hmode : l.state.mode = .code) (h : l.Amid front text s offset)
    (hne : text ≠ []) (afterColon : Bool) :
    l.run markup { afterColon } offset s =
      (l.push (.code (text ++ (readCode markup afterColon s).1)) .code).run markup {}
          (offset + (readCode markup afterColon s).1.length) (readCode markup afterColon s).2 := by
  induction s generalizing text offset afterColon with
  | nil =>
      simpa [hmode, readCode] using
        h.run_nil hne (by rw [hmode]; rfl) rfl { afterColon } offset offset
  | cons c s ih =>
      by_cases hopen : (opener? markup afterColon c s).isSome = true
      · have hclose : l.closeRun .code offset = l.push (.code text) .code := by
          rw [h.closeRun hne .code rfl, hmode]
        have hagain : (l.push (.code text) .code).closeRun .code offset =
            l.push (.code text) .code := by
          apply Lexer.closeRun_of_start
          rw [h.offset, ← h.start]
          rfl
        have hstep : l.step markup afterColon offset c s =
            (l.push (.code text) .code).step markup false offset c s := by
          rw [Lexer.step, hmode]
          show _ = (l.push (.code text) .code).stepCode markup false offset c s
          simp only [Lexer.stepCode, opener?_of_afterColon hopen, hclose, hagain]
          cases ho : opener? markup afterColon c s with
          | none => rw [ho] at hopen; cases hopen
          | some o => cases o <;> rfl
        rw [Lexer.run_cons, hstep]
        simp [readCode, hopen, Lexer.run_cons]
      · have hnone : opener? markup afterColon c s = none := by simpa using hopen
        have hstep : l.step markup afterColon offset c s = (.ok { afterColon := c == ':' }, l) := by
          simp [Lexer.step, hmode, Lexer.stepCode, hnone]
        rw [Lexer.run_cons, hstep]
        have hnext := ih h.cons (by simp) (c == ':')
        simpa [readCode, hopen, Nat.add_assoc, Nat.add_comm, Nat.add_left_comm] using hnext

/-! ## One token -/

/-- Between two tokens nothing is open. -/
structure Lexer.Ready (l : Lexer) (front rest : List Char) : Prop where
  source : l.source = front ++ rest
  start : l.runStart = front.length
  state : l.state = {}

theorem Lexer.Ready.amid {c : Char} (h : l.Ready front (c :: s)) (mode : Mode) :
    (l.enter mode).Amid front [c] s (front.length + 1) :=
  ⟨by simpa [Lexer.enter] using h.source, h.start, rfl⟩

theorem Lexer.Ready.closeRun (h : l.Ready front rest) (kind : List Char → Token) :
    l.closeRun kind front.length = l :=
  Lexer.closeRun_of_start h.start kind

theorem Lexer.enter_push (l : Lexer) (mode mode' : Mode) (t : Token) :
    (l.enter mode).push t mode' = l.push t mode' :=
  rfl

theorem Lexer.run_congr {t : Token} {mode : Mode} {offset' : Nat} (h : offset = offset') :
    (l.push t mode).run markup {} offset rest = (l.push t mode).run markup {} offset' rest := by
  rw [h]

/-- A lexer that is between two tokens takes the token that `readToken` takes. -/
theorem Lexer.run_token {c : Char} (h : l.Ready front (c :: s)) :
    l.run markup {} front.length (c :: s) =
      match readToken markup c s with
      | .error fault =>
        (.error (l.unclosed fault.cause (c :: s)), { l with state := fault.state })
      | .ok r =>
        (l.push r.token r.mode).run markup {} (front.length + r.token.text.length) r.rest := by
  have hcode : l.state.mode = .code := by rw [h.state]
  have hstep : l.step markup false front.length c s =
      l.stepCode markup false front.length c s := by
    rw [Lexer.step, hcode]
  rw [Lexer.run_cons, hstep, Lexer.stepCode, readToken]
  cases hopen : opener? markup false c s with
  | none =>
      have hamid : l.Amid front [c] s (front.length + 1) := ⟨by simpa using h.source, h.start, rfl⟩
      have hrun := @Lexer.run_code l markup front [c] s _ hcode hamid (by simp) (c == ':')
      dsimp only
      rw [hrun]
      apply Lexer.run_congr
      simp [Token.text]
      omega
  | some o =>
      rcases opener?_cases hopen with ⟨rfl, -, rfl, u, rfl⟩ | ⟨rfl, rfl, u, rfl⟩ | ⟨rfl, hquote⟩ |
        ⟨t, rest, rfl, -, -, -⟩
      · have hrun : (l.enter .lineComment).run markup {} (front.length + 1 + 1) u = _ :=
          Lexer.run_lineComment rfl (h.amid .lineComment).cons (by simp)
        simp [h.closeRun, Lexer.run_skip _ _ _ 1, hrun, Lexer.enter_push]
        apply Lexer.run_congr
        simp only [Token.text, List.length_cons]
        omega
      · have hrun : (l.enter .blockComment).run markup {} (front.length + 1 + 1) u = _ :=
          Lexer.run_blockComment rfl (h.amid .blockComment).cons (by simp)
        simp only [h.closeRun, Lexer.run_skip _ _ _ 1, hrun, Lexer.enter_push, List.drop_succ_cons,
          List.drop_zero]
        cases findFirst? ['*', '/'] u with
        | none =>
            apply Lexer.run_congr
            simp only [Token.text, List.length_cons]
            omega
        | some found =>
            apply Lexer.run_congr
            simp [Token.text]
            omega
      · have hrun : (l.enter (.string c)).run markup {} (front.length + 1) s = _ :=
          Lexer.run_string rfl (h.amid (.string c)) (by simp)
        simp only [h.closeRun, hrun, Lexer.enter_push]
        apply Lexer.run_congr
        simp [Token.text]
        omega
      · simp only [h.closeRun]
        cases hread : readBlock t rest with
        | error fault => rfl
        | ok r =>
            have hsource := (readBlock_source hread).trans (opener?_markup hopen).2
            have hpos := List.length_pos_iff.2 (readBlock_source_ne_nil hread)
            have htake : l.takeBlock r.source r.block = l.push (.markup r.source r.block) .code := by
              simp only [Lexer.takeBlock, Lexer.push, h.state, Token.text]
            have hrest : s.drop (r.source.length - 1) = r.rest := by
              have hdrop := congrArg (List.drop r.source.length) hsource
              rw [List.drop_left] at hdrop
              rw [hdrop, ← List.drop_succ_cons, Nat.sub_add_cancel hpos]
            simp only [Except.map, Lexer.run_skip _ _ _ (r.source.length - 1), htake, hrest]
            apply Lexer.run_congr
            simp only [Token.text]
            omega

/-! ## Failures -/

theorem cause_of_parts {t : Tag} {nesting : Nat} {fault : BlockFault}
    (h : t.parts nesting = .error fault) : fault.cause = .attribute := by
  unfold Tag.parts at h
  split at h
  · cases h
  · cases h
    rfl

/-- The expression that a block without an end breaks off in is the end of its text. -/
theorem suffix_of_readContent {depth : Nat} {afterColon : Bool} {mode : Mode} {fault : BlockFault}
    {source : List Char} (h : readContent depth afterColon mode s = .error fault)
    (hcause : fault.cause = .expression source) : source <:+ s := by
  fun_induction readContent depth afterColon mode s with
  | case1 =>
      cases h
      cases hcause
  | case2 depth afterColon mode c s braces hitem =>
      cases h
      cases hcause
      exact List.suffix_refl _
  | case3 depth afterColon mode c s r hitem t ht ih | case4 depth afterColon mode c s r hitem t ht ih
  | case5 depth afterColon mode c s r hitem t ht ih =>
      rw [← readItem_eq_ok hitem]
      exact (ih (map_eq_error h)).trans (List.suffix_append _ _)
  | case6 depth afterColon mode c s r hitem t ht e hparts =>
      cases h
      rw [cause_of_parts hparts] at hcause
      cases hcause
  | case7 => cases h
  | case8 depth afterColon mode c s r hitem t ht parts hparts hz ih =>
      rw [← readItem_eq_ok hitem]
      exact (ih (map_eq_error h)).trans (List.suffix_append _ _)

theorem suffix_of_readToken {c : Char} {fault : BlockFault} {source : List Char}
    (h : readToken markup c s = .error fault) (hcause : fault.cause = .expression source) :
    source <:+ c :: s := by
  unfold readToken at h
  split at h
  · cases h
  · split at h <;> cases h
  · cases h
  · rename_i t rest hopen
    have hread := map_eq_error h
    rw [← (opener?_markup hopen).2]
    unfold readBlock at hread
    split at hread
    · rename_i e hparts
      cases hread
      rw [cause_of_parts hparts] at hcause
      cases hcause
    · split at hread
      · cases hread
      · exact (suffix_of_readContent (map_eq_error hread) hcause).trans (List.suffix_append _ _)
  · cases h

theorem Lexer.Ready.unclosed_eq {c : Char} {fault : BlockFault} (h : l.Ready front (c :: s))
    (hlines : l.lineFeeds = lineFeedsFrom 0 l.source)
    (hread : readToken markup c s = .error fault) :
    l.unclosed fault.cause (c :: s) =
      (locateFault fault (newlines front + 1) (c :: s)).error := by
  have hline : ∀ text rest, c :: s = text ++ rest →
      l.lineAt (l.runStart + text.length) = newlines front + newlines text + 1 := by
    intro text rest hsplit
    rw [Lexer.lineAt_eq hlines, h.source, h.start, hsplit, Source.lineAt, ← List.append_assoc,
      ← List.length_append, List.take_left, newlines_append]
  have hfirst := hline [] (c :: s) rfl
  rw [List.length_nil, Nat.add_zero] at hfirst
  unfold Lexer.unclosed locateFault
  cases hcause : fault.cause with
  | element => simp [hfirst, newlines]
  | «attribute» => simp [hfirst, newlines]
  | expression source =>
      obtain ⟨text, htext⟩ := suffix_of_readToken hread hcause
      have hopen := hline text source htext.symm
      have hlength : (c :: s).length - source.length = text.length := by
        rw [← htext, List.length_append]
        omega
      have hcount : newlines (c :: s) - newlines source = newlines text := by
        rw [← htext, newlines_append]
        omega
      dsimp only
      rw [hlength, hopen, hcount, show newlines front + newlines text + 1 =
        newlines front + 1 + newlines text by omega]

/-! ## A whole source -/

/-- What shows of a run: its tokens or its failure, and the state in which it leaves the lexer. -/
def observe (out : Except UnclosedMarkup Unit × Lexer) :
    Except ScanFault (List Placed × ScanState) :=
  match out with
  | (.ok (), l) => .ok (l.tokens, l.state)
  | (.error e, l) => .error ⟨e, l.state⟩

theorem mode_of_readToken {c : Char} {r : TokenRead} (h : readToken markup c s = .ok r)
    (hrest : r.rest ≠ []) : r.mode = .code := by
  have hstands := stands_of_readToken h
  generalize r.token = t, r.mode = mode, r.rest = rest at hstands hrest
  cases hstands with
  | lineComment => simp [hrest]
  | openBlockComment => exact absurd rfl hrest
  | openString => exact absurd rfl hrest
  | _ => rfl

theorem Lexer.observe_run {line : Nat} {mode : Mode} (hsource : l.source = front ++ s)
    (hstart : l.runStart = front.length) (hlines : l.lineFeeds = lineFeedsFrom 0 l.source)
    (hline : line = newlines front + 1) (hstate : l.state = { mode })
    (hmode : s ≠ [] → mode = .code) :
    observe (l.run markup {} front.length s) =
      (scanFrom markup line mode s).map fun r =>
        (l.tokens ++ placeFrom front.length line r.tokens, r.state) := by
  fun_induction scanFrom markup line mode s generalizing l front with
  | case1 line mode =>
      rw [Lexer.run_nil_of_start (by rw [hsource, List.append_nil, hstart])]
      simp [observe, Except.map, placeFrom, hstate]
  | case2 line mode c s fault hread =>
      obtain rfl := hmode (by simp)
      have hready : l.Ready front (c :: s) := ⟨hsource, hstart, hstate⟩
      have herror := hready.unclosed_eq hlines hread
      rw [Lexer.run_token hready, hread, hline]
      simp only [observe, Except.map, herror]
      rfl
  | case3 line mode c s r hread ih =>
      obtain rfl := hmode (by simp)
      have hready : l.Ready front (c :: s) := ⟨hsource, hstart, hstate⟩
      have hafter : (l.push r.token r.mode).source = front ++ r.token.text ++ r.rest := by
        rw [List.append_assoc, readToken_source hread]
        exact hsource
      have hnext := ih hafter
        (by rw [List.length_append, ← hstart]; rfl)
        hlines (by rw [newlines_append, hline]; omega)
        (by simp only [Lexer.push, hstate]) (mode_of_readToken hread)
      have hfirst : l.lineAt front.length = line := by
        rw [Lexer.lineAt_eq hlines, hsource, Source.lineAt, List.take_left, hline]
      rw [Lexer.run_token hready, hread]
      dsimp only
      rw [← List.length_append, hnext]
      cases scanFrom markup (line + newlines r.token.text) r.mode r.rest with
      | error fault => rfl
      | ok scanned => simp [Except.map, placeFrom, Lexer.push, hfirst, hstart]

/-! ## Registers that no step writes -/

/-- A lexer still has the text and the line feeds that another one has. -/
structure Lexer.SameText (l l' : Lexer) : Prop where
  source : l'.source = l.source
  lineFeeds : l'.lineFeeds = l.lineFeeds

theorem Lexer.SameText.trans {l l' l'' : Lexer} (h : l.SameText l') (h' : l'.SameText l'') :
    l.SameText l'' :=
  ⟨h'.source.trans h.source, h'.lineFeeds.trans h.lineFeeds⟩

theorem Lexer.sameText_stepComment (l : Lexer) (offset : Nat) (c : Char) (s : List Char) :
    l.SameText (l.stepComment offset c s).2 := by
  unfold Lexer.stepComment
  split
  · split <;> exact ⟨rfl, rfl⟩
  · split <;> exact ⟨rfl, rfl⟩

theorem Lexer.sameText_stepString (l : Lexer) (q : Char) (offset : Nat) (c : Char) :
    l.SameText (l.stepString q offset c).2 := by
  unfold Lexer.stepString
  split
  · exact ⟨rfl, rfl⟩
  · split <;> exact ⟨rfl, rfl⟩

theorem Lexer.sameText_stepCode (l : Lexer) (markup afterColon : Bool) (offset : Nat) (c : Char)
    (s : List Char) : l.SameText (l.stepCode markup afterColon offset c s).2 := by
  unfold Lexer.stepCode
  split
  · exact ⟨rfl, rfl⟩
  · exact ⟨rfl, rfl⟩
  · exact ⟨rfl, rfl⟩
  · dsimp only
    split <;> exact ⟨rfl, rfl⟩
  · exact ⟨rfl, rfl⟩

theorem Lexer.sameText_step (l : Lexer) (markup afterColon : Bool) (offset : Nat) (c : Char)
    (s : List Char) : l.SameText (l.step markup afterColon offset c s).2 := by
  unfold Lexer.step
  split
  · exact l.sameText_stepComment offset c s
  · exact l.sameText_stepComment offset c s
  · exact l.sameText_stepString _ offset c
  · exact l.sameText_stepCode markup afterColon offset c s

theorem Lexer.sameText_run (l : Lexer) (markup : Bool) (next : Advance) (offset : Nat)
    (s : List Char) : l.SameText (l.run markup next offset s).2 := by
  induction s generalizing l next offset with
  | nil => exact ⟨rfl, rfl⟩
  | cons c s ih =>
      obtain ⟨skip, afterColon⟩ := next
      cases skip with
      | succ n => exact ih l ⟨n, afterColon⟩ (offset + 1)
      | zero =>
          have hstep := l.sameText_step markup afterColon offset c s
          rw [Lexer.run_cons]
          generalize l.step markup afterColon offset c s = out at hstep
          obtain ⟨outcome, l'⟩ := out
          cases outcome with
          | error e => exact hstep
          | ok next => exact hstep.trans (ih l' next (offset + 1))

end

/-! ## Whatever came before -/

section
variable (l : Lexer) (source : List Char) (markup : Bool)

/-- The registers that a lexer was left with do not show in what it makes of the next source. -/
theorem Lexer.observe_reset :
    observe ((l.reset source).run markup {} 0 source) =
      (scan source markup).map fun r => (place r.tokens, r.state) :=
  @Lexer.observe_run (l.reset source) markup [] source 1 .code rfl rfl rfl rfl rfl fun _ => rfl

theorem Lexer.tokenize_fst :
    (l.tokenize source markup).1 =
      ((scan source markup).map fun r => place r.tokens).mapError (·.error) := by
  have hobserve := l.observe_reset source markup
  unfold Lexer.tokenize
  generalize (l.reset source).run markup {} 0 source = out at hobserve
  obtain ⟨outcome, l'⟩ := out
  cases hscan : scan source markup with
  | error f =>
      rw [hscan] at hobserve
      cases outcome with
      | error e =>
          cases hobserve
          rfl
      | ok => cases hobserve
  | ok r =>
      rw [hscan] at hobserve
      cases outcome with
      | error e => cases hobserve
      | ok =>
          have htokens := congrArg Prod.fst (Except.ok.inj hobserve)
          exact congrArg Except.ok htokens

/-- A lexer is left inside of a comment. The next source is read as one unless the state is reset. -/
example :
    let left := (({} : Lexer).tokenize "/*".toList).2
    left.state.mode = .blockComment ∧
      (left.tokenize ['a']).1 = (({} : Lexer).tokenize ['a']).1 ∧
      (({ left with source := ['a'], tokens := [], runStart := 0 } : Lexer).run true {} 0
        ['a']).2.tokens ≠ (({ source := ['a'] } : Lexer).run true {} 0 ['a']).2.tokens := by
  decide +kernel

/-- The lines of offsets that a lexer gives are those of the last source. -/
theorem Lexer.lineAt_tokenize (offset : Nat) :
    (l.tokenize source markup).2.lineAt offset = Source.lineAt source offset := by
  have hsame := (l.reset source).sameText_run markup {} 0 source
  have hkept : (l.tokenize source markup).2 = ((l.reset source).run markup {} 0 source).2 := by
    unfold Lexer.tokenize
    split <;> rename_i h <;> rw [h]
  have hsource : (l.tokenize source markup).2.source = source := by
    rw [hkept, hsame.source]
    rfl
  rw [Lexer.lineAt_eq (by rw [hsource, hkept, hsame.lineFeeds]; rfl), hsource]

end

end ElementBundle.Source
