import ElementBundle.Proofs.Source.Machine

/-! # Runs of the scanner and its readers

Each reader is a stretch of the run: what it returns is where the machine
arrives, and what it leaves in the state is what the registers hold there. Put
together, the run over a source ends where its scan ends.
-/

namespace ElementBundle.Source

open ElementBundle.Text ElementBundle.Markup

variable {markup : Bool}

theorem Reaches.refl (p : Point) : Reaches markup p p :=
  Relation.ReflTransGen.refl

theorem Reaches.of_step {p p' q : Point} (hstep : p.step markup = some p')
    (h : Reaches markup p' q) : Reaches markup p q :=
  Relation.ReflTransGen.head hstep h

theorem Reaches.trans {p q r : Point} (h : Reaches markup p q) (h' : Reaches markup q r) :
    Reaches markup p r :=
  Relation.ReflTransGen.trans h h'

/-! ## Comments -/

def SkipsComments (markup : Bool) (loop : Loop) : Prop :=
  ∀ (g : Registers) (c : Char) (s : List Char), g.mode = .lineComment ∨ g.mode = .blockComment →
    Point.step markup ⟨loop, g, c :: s, none⟩ =
      some ⟨loop, (g.stepComment c s).1, (g.stepComment c s).2, none⟩

theorem skipsComments_script : SkipsComments markup (.script false) := by
  intro g c s hmode
  rcases hmode with hmode | hmode <;> simp [Point.step, Registers.stepScript, hmode]

theorem skipsComments_content : SkipsComments markup (.content false) := by
  intro g c s hmode
  rcases hmode with hmode | hmode <;> simp [Point.step, Registers.stepContent, hmode]

theorem reaches_lineComment {loop : Loop} {g : Registers} {body rest : List Char}
    (hloop : SkipsComments markup loop) (hmode : g.mode = .lineComment) (hbody : '\n' ∉ body)
    (hstop : rest = [] ∨ rest.head? = some '\n') :
    Reaches markup ⟨loop, g, body ++ rest, none⟩
      ⟨loop, { g with mode := if rest.isEmpty then .lineComment else .code }, rest, none⟩ := by
  induction body with
  | nil =>
      cases rest with
      | nil =>
          rw [← hmode]
          exact .refl _
      | cons c s =>
          have hc : c = '\n' := by simpa using hstop
          refine .of_step (hloop g c s (.inl hmode)) ?_
          simp only [Registers.stepComment, hmode, hc, if_true]
          exact .refl _
  | cons c body ih =>
      have hc : c ≠ '\n' := fun h => hbody (h ▸ List.mem_cons_self)
      refine .of_step (hloop g c _ (.inl hmode)) ?_
      simp only [Registers.stepComment, hmode, hc, if_true, if_false]
      exact ih fun hm => hbody (List.mem_cons_of_mem c hm)

theorem reaches_blockComment {loop : Loop} {g : Registers} {s body rest : List Char}
    (hloop : SkipsComments markup loop) (hmode : g.mode = .blockComment)
    (h : findFirst? ['*', '/'] s = some (body, rest)) :
    Reaches markup ⟨loop, g, s, none⟩ ⟨loop, { g with mode := .code }, rest, none⟩ := by
  induction s generalizing body with
  | nil => cases h
  | cons c s ih =>
      refine .of_step (hloop g c s (.inr hmode)) ?_
      rw [findFirst?] at h
      cases hdrop : dropLeading? ['*', '/'] (c :: s) with
      | some s' =>
          rw [hdrop] at h
          cases h
          simp only [Registers.stepComment, hmode, hdrop]
          exact .refl _
      | none =>
          rw [hdrop] at h
          obtain ⟨⟨body', rest'⟩, hfind, heq⟩ := Option.map_eq_some_iff.1 h
          cases heq
          simp only [Registers.stepComment, hmode, hdrop]
          exact ih hfind

theorem reaches_openBlockComment {loop : Loop} {g : Registers} {s : List Char}
    (hloop : SkipsComments markup loop) (hmode : g.mode = .blockComment)
    (h : findFirst? ['*', '/'] s = none) :
    Reaches markup ⟨loop, g, s, none⟩ ⟨loop, g, [], none⟩ := by
  induction s with
  | nil => exact .refl _
  | cons c s ih =>
      refine .of_step (hloop g c s (.inr hmode)) ?_
      rw [findFirst?] at h
      cases hdrop : dropLeading? ['*', '/'] (c :: s) with
      | some s' =>
          rw [hdrop] at h
          cases h
      | none =>
          rw [hdrop] at h
          simp only [Registers.stepComment, hmode, hdrop]
          exact ih (by simpa using h)

/-! ## Strings and expressions -/

theorem reaches_string (g : Registers) (q : Char) (s : List Char) :
    Reaches markup ⟨.script false, { g with mode := .string q }, s, none⟩
      ⟨.script false, { g with mode := if (readString q s).2.1 then .code else .string q },
        (readString q s).2.2, none⟩ := by
  induction s using escapedInduction with
  | nil => exact .refl _
  | backslash => exact .of_step rfl (.refl _)
  | escape c s ih =>
      rw [readString_escape]
      exact .of_step rfl ih
  | plain c s hc ih =>
      have hstep : Point.step markup ⟨.script false, { g with mode := .string q }, c :: s, none⟩ =
          some ⟨.script false, { g with mode := if c = q then .code else .string q }, s, none⟩ := by
        simp only [Point.step, Registers.stepScript, Registers.stepString, hc, if_false]
        split <;> rfl
      refine .of_step hstep ?_
      rw [readString_plain hc]
      by_cases hq : c = q
      · simp only [hq, if_true]
        exact .refl _
      · simp only [hq, if_false]
        exact ih

def quoteMode : Option Char → Mode
  | none => .code
  | some q => .string q

def expressionEnd (g : Registers) (outer : Option (List Char)) :
    Except Nat (List Char × List Char) → Point
  | .ok (_, rest) =>
    ⟨if outer.isNone then .content false else .tag, { g with mode := .code, braces := 0 }, rest, outer⟩
  | .error depth => ⟨.failed, { g with mode := .code, braces := depth }, [], outer⟩

theorem Reaches.expression_map {p : Point} {g : Registers} {outer : Option (List Char)}
    {f : List Char × List Char → List Char × List Char} {x : Except Nat (List Char × List Char)}
    (h : Reaches markup p (expressionEnd g outer x)) (hf : ∀ x, (f x).2 = x.2) :
    Reaches markup p (expressionEnd g outer (x.map f)) := by
  cases x with
  | error depth => exact h
  | ok x =>
      show Reaches markup p (expressionEnd g outer (.ok ((f x).1, (f x).2)))
      rw [hf]
      exact h

theorem reaches_expression (g : Registers) (outer : Option (List Char)) {depth : Nat}
    (hdepth : 0 < depth) (quote : Option Char) (s : List Char) :
    Reaches markup ⟨.expression, { g with mode := quoteMode quote, braces := depth }, s, outer⟩
      (expressionEnd g outer (readExpression depth quote s)) := by
  fun_induction readExpression depth quote s with
  | case1 => exact .of_step rfl (.refl _)
  | case2 => exact .of_step rfl (.of_step rfl (.refl _))
  | case3 depth q c s ih =>
      refine .expression_map ?_ fun _ => rfl
      exact .of_step rfl (ih hdepth)
  | case4 depth q c s h h' ih =>
      have hc : c ≠ '\\' := by
        rintro rfl
        cases s with
        | nil => exact h rfl rfl
        | cons d s => exact h' d s rfl rfl
      have hstep : Point.step markup
          ⟨.expression, { g with mode := quoteMode (some q), braces := depth }, c :: s, outer⟩ =
          some ⟨.expression,
            { g with mode := quoteMode (if c = q then none else some q), braces := depth },
            s, outer⟩ := by
        simp only [Point.step, Registers.stepExpression, Registers.stepString, quoteMode, hc, if_false]
        split <;> rfl
      refine .expression_map ?_ fun _ => rfl
      exact .of_step hstep (ih hdepth)
  | case5 depth c s hq ih =>
      refine .expression_map ?_ fun _ => rfl
      refine .of_step ?_ (ih hdepth)
      simp [Point.step, Registers.stepExpression, quoteMode, hq]
  | case6 depth s hq ih =>
      refine .expression_map ?_ fun _ => rfl
      refine .of_step ?_ (ih (Nat.succ_pos depth))
      simp [Point.step, Registers.stepExpression, quoteMode, isQuote]
  | case7 depth s hq hbrace hone =>
      obtain rfl : depth = 1 := by omega
      exact .of_step rfl (.refl _)
  | case8 depth s hq hbrace hone ih =>
      refine .expression_map ?_ fun _ => rfl
      refine .of_step ?_ (ih (by omega))
      have hne : (depth : Int) - 1 ≠ 0 := by omega
      have hcast : ((depth - 1 : Nat) : Int) = depth - 1 := by omega
      simp [Point.step, Registers.stepExpression, quoteMode, isQuote, hne, hcast]
  | case9 depth c s hq hopen hclose ih =>
      refine .expression_map ?_ fun _ => rfl
      refine .of_step ?_ (ih hdepth)
      simp [Point.step, Registers.stepExpression, quoteMode, hq, hopen, hclose]

/-- From its brace on, an expression is gone through with none open in front. -/
theorem reaches_braced {g : Registers} (hmode : g.mode = .code) (hbraces : g.braces = 0)
    (outer : Option (List Char)) (s : List Char) :
    Reaches markup ⟨.expression, g, '{' :: s, outer⟩
      (expressionEnd g outer (readExpression 1 none s)) := by
  refine .of_step ?_ (reaches_expression g outer Nat.one_pos none s)
  simp [Point.step, Registers.stepExpression, quoteMode, isQuote, hmode, hbraces]

/-! ## Tags -/

def tagEnd {α : Type} (g : Registers) (rest : List Char) : Except Nat α → Point
  | .ok _ => ⟨.tag, g, [], some rest⟩
  | .error depth => ⟨.failed, { g with braces := depth }, [], some rest⟩

theorem tagEnd_map {α β : Type} (g : Registers) (rest : List Char) (f : α → β)
    (x : Except Nat α) : tagEnd g rest (x.map f) = tagEnd g rest x := by
  cases x <;> rfl

theorem reaches_tag {g : Registers} (hmode : g.mode = .code) (hbraces : g.braces = 0)
    (rest text : List Char) :
    Reaches markup ⟨.tag, g, text, some rest⟩ (tagEnd g rest (tagParts text)) := by
  have hclean : { g with braces := 0 } = g := by rw [← hbraces]
  have hclean' : { g with mode := .code, braces := 0 } = g := by rw [← hbraces, ← hmode]
  have henter : ∀ s, Point.step markup ⟨.tag, g, '{' :: s, some rest⟩ =
      some ⟨.expression, g, '{' :: s, some rest⟩ := by
    intro s
    simp [Point.step, hclean]
  fun_induction tagParts text with
  | case1 => exact .refl _
  | case2 s depth hread =>
      refine .of_step (henter s) ?_
      have hexpression : Reaches markup _ _ := reaches_braced hmode hbraces (some rest) s
      rw [hread] at hexpression
      simpa only [tagEnd, expressionEnd, ← hmode] using hexpression
  | case3 s inside after hread ih =>
      refine .of_step (henter s) ?_
      have hexpression : Reaches markup _ _ := reaches_braced hmode hbraces (some rest) s
      rw [hread] at hexpression
      simp only [expressionEnd, hclean', Option.isNone_some, Bool.false_eq_true, if_false]
        at hexpression
      rw [tagEnd_map]
      exact hexpression.trans ih
  | case4 c s hc ih =>
      rw [tagEnd_map]
      refine .of_step ?_ ih
      simp [Point.step, hc]

/-! ## Items -/

/-- Where an item ends. A tag ends in front of its text, which is still to be gone through. -/
inductive ItemEnd (g : Registers) : Except Nat ItemRead → Point → Prop
  | failed (depth : Nat) : ItemEnd g (.error depth) ⟨.failed, { g with braces := depth }, [], none⟩
  | tag (t : Tag) (rest : List Char) :
      ItemEnd g (.ok { item := .tag t, rest })
        ⟨.tag, { g with nesting := g.nesting + t.weight }, if t.closing then t.text else t.expanded,
          some rest⟩
  | other {r : ItemRead} {afterColon : Bool} (plain : r.item.tag? = none)
      (colon : r.rest.head? = some '/' → afterColon = r.item.endsWithColon)
      (mode : r.rest ≠ [] → r.mode = .code) :
      ItemEnd g (.ok r) ⟨.content afterColon, { g with mode := r.mode }, r.rest, none⟩

theorem step_content {g : Registers} (hmode : g.mode = .code) (afterColon : Bool) (c : Char)
    (s : List Char) :
    Point.step markup ⟨.content afterColon, g, c :: s, none⟩ = some (g.stepItem afterColon c s) := by
  simp [Point.step, Registers.stepContent, hmode]

/-- One step leads behind an item that is a single character or whose end is looked up. -/
theorem exists_reaches_of_stepItem {g : Registers} (hmode : g.mode = .code) {a : Bool} {c : Char}
    {s : List Char} {r : ItemRead} (hr : r.mode = .code) (hplain : r.item.tag? = none)
    (hcolon : r.rest.head? = some '/' → (c == ':') = r.item.endsWithColon)
    (hstep : g.stepItem a c s = ⟨.content (c == ':'), g, r.rest, none⟩) :
    ∃ p, Reaches markup ⟨.content a, g, c :: s, none⟩ p ∧ ItemEnd g (.ok r) p := by
  have hclean : { g with mode := r.mode } = g := by rw [hr, ← hmode]
  refine ⟨_, .of_step (step_content hmode a c s) ?_, .other hplain hcolon fun _ => hr⟩
  rw [hstep, hclean]
  exact .refl _

theorem exists_reaches_readBraced {g : Registers} (hmode : g.mode = .code) (hbraces : g.braces = 0)
    (a : Bool) (s : List Char) :
    ∃ p, Reaches markup ⟨.content a, g, '{' :: s, none⟩ p ∧ ItemEnd g (readBraced s) p := by
  unfold readBraced
  split
  · rename_i body rest hcomment
    exact exists_reaches_of_stepItem hmode rfl rfl (fun _ => rfl)
      (by simp [Registers.stepItem, hcomment])
  · rename_i hcomment
    have hclean : { g with braces := 0 } = g := by rw [← hbraces]
    have hstep : Point.step markup ⟨.content a, g, '{' :: s, none⟩ =
        some ⟨.expression, g, '{' :: s, none⟩ := by
      rw [step_content hmode]
      simp [Registers.stepItem, hcomment, hclean]
    have hexpression : Reaches markup _ _ := reaches_braced hmode hbraces none s
    cases hread : readExpression 1 none s with
    | error depth =>
        rw [hread] at hexpression
        simp only [expressionEnd, ← hmode] at hexpression
        exact ⟨_, .of_step hstep hexpression, .failed depth⟩
    | ok x =>
        rw [hread] at hexpression
        have hregisters : { g with mode := .code, braces := 0 } = { g with mode := .code } := by
          rw [← hbraces]
        simp only [expressionEnd, Option.isNone_none, if_true, hregisters] at hexpression
        refine ⟨_, .of_step hstep hexpression, ?_⟩
        exact ItemEnd.other (r := { item := .expression x.1, rest := x.2 }) rfl (fun _ => rfl)
          fun _ => rfl

theorem exists_reaches_readLineComment {g : Registers} (hmode : g.mode = .code) (s : List Char) :
    ∃ p, Reaches markup ⟨.content false, g, '/' :: '/' :: s, none⟩ p ∧
      ItemEnd g (.ok (readLineComment s)) p := by
  have hline : '\n' ∉ s.takeWhile (· ≠ '\n') := by
    intro hm
    simpa using List.mem_takeWhile_imp hm
  have hstop := lineEnd_iff.1 (head?_dropWhile_any (fun c => decide (c ≠ '\n')) s)
  have hcomment : Reaches markup _ _ := reaches_lineComment (g := { g with mode := .lineComment })
    skipsComments_content rfl hline hstop
  rw [List.takeWhile_append_dropWhile] at hcomment
  refine ⟨_, .of_step (step_content hmode _ _ _) hcomment, .other rfl ?_ ?_⟩
  · intro hhead
    have hslash : (s.dropWhile fun c => decide (c ≠ '\n')).head? = some '/' := hhead
    rcases hstop with hnil | hfeed
    · rw [hnil] at hslash
      cases hslash
    · rw [hfeed] at hslash
      exact absurd hslash (by decide)
  · intro hne
    exact if_neg (by simpa [readLineComment] using hne)

theorem endsWithColon_of_getLast? {a b : List Char} {d : Char} (hb : b.getLast? = some d)
    (hd : d ≠ ':') : (Item.text (a ++ b)).endsWithColon = false := by
  simp [Item.endsWithColon, List.getLast?_append, hb, hd]

theorem exists_reaches_readBlockComment {g : Registers} (hmode : g.mode = .code) (a : Bool)
    (s : List Char) :
    ∃ p, Reaches markup ⟨.content a, g, '/' :: '*' :: s, none⟩ p ∧
      ItemEnd g (.ok (readBlockComment s)) p := by
  unfold readBlockComment
  split
  · rename_i body rest hfind
    have hcomment : Reaches markup _ _ := reaches_blockComment
      (g := { g with mode := .blockComment }) skipsComments_content rfl hfind
    refine ⟨_, .of_step (step_content hmode _ _ _) hcomment, .other rfl ?_ fun _ => rfl⟩
    exact fun _ => (endsWithColon_of_getLast? rfl (by decide)).symm
  · rename_i hfind
    have hcomment : Reaches markup _ _ := reaches_openBlockComment
      (g := { g with mode := .blockComment }) skipsComments_content rfl hfind
    refine ⟨_, .of_step (step_content hmode _ _ _) hcomment, ?_⟩
    exact ItemEnd.other (r := ⟨_, .blockComment, []⟩) rfl (fun h => nomatch h) fun h => absurd rfl h

theorem exists_reaches_readMarkupComment {g : Registers} (hmode : g.mode = .code) (a : Bool)
    {s s' : List Char} (hs : dropLeading? ['!', '-', '-'] s = some s') :
    ∃ p, Reaches markup ⟨.content a, g, '<' :: s, none⟩ p ∧
      ItemEnd g (.ok (readMarkupComment s')) p := by
  unfold readMarkupComment
  split
  · rename_i body rest hfind
    refine exists_reaches_of_stepItem hmode rfl rfl ?_ ?_
    · exact fun _ => (endsWithColon_of_getLast? rfl (by decide)).symm
    · simp [Registers.stepItem, hs, hfind]
  · rename_i hfind
    refine exists_reaches_of_stepItem hmode rfl rfl ?_ ?_
    · intro h
      cases h
    · simp [Registers.stepItem, hs, hfind]

theorem exists_reaches_item {g : Registers} (hmode : g.mode = .code) (hbraces : g.braces = 0)
    {a a' : Bool} {c : Char} {s : List Char} (hcolon : c = '/' → a' = a) :
    ∃ p, Reaches markup ⟨.content a', g, c :: s, none⟩ p ∧ ItemEnd g (readItem a c s) p := by
  unfold readItem
  by_cases hbrace : c = '{'
  · subst hbrace
    exact exists_reaches_readBraced hmode hbraces a' s
  · rw [if_neg hbrace]
    by_cases hslash : c = '/'
    · obtain rfl := hcolon hslash
      subst hslash
      rw [if_pos rfl]
      split
      · rename_i s'
        cases a' with
        | true => exact exists_reaches_of_stepItem hmode rfl rfl (fun _ => rfl) rfl
        | false => exact exists_reaches_readLineComment hmode s'
      · rename_i s'
        exact exists_reaches_readBlockComment hmode a' s'
      · rename_i h h'
        refine exists_reaches_of_stepItem hmode rfl rfl (fun _ => rfl) ?_
        simp [Registers.stepItem]
    · rw [if_neg hslash]
      by_cases hangle : c = '<'
      · subst hangle
        rw [if_pos rfl]
        split
        · rename_i s' hs
          exact exists_reaches_readMarkupComment hmode a' hs
        · rename_i hs
          split
          · rename_i t rest hread
            refine ⟨_, .of_step (step_content hmode a' '<' s) ?_, .tag t rest⟩
            simp only [Registers.stepItem, hs, hread]
            exact .refl _
          · rename_i hread
            refine exists_reaches_of_stepItem hmode rfl rfl (fun _ => rfl) ?_
            simp [Registers.stepItem, hs, hread]
      · rw [if_neg hangle]
        refine exists_reaches_of_stepItem hmode rfl rfl ?_ ?_
        · intro _
          simp [Item.endsWithColon]
        · simp [Registers.stepItem, hbrace, hslash, hangle]

/-! ## Blocks -/

def registersOf (state : ScanState) : Registers :=
  ⟨state.nesting.isSome, state.nesting.getD 0, state.mode, state.expressionDepth⟩

/-- Where a block ends: behind it, or at a failure. -/
inductive BlockEnd : Except BlockFault (List Char) → Point → Prop
  | closed (rest : List Char) : BlockEnd (.ok rest) ⟨.script false, {}, rest, none⟩
  | failed {fault : BlockFault} {p : Point} (loop : p.loop = .failed)
      (registers : p.registers = registersOf fault.state) : BlockEnd (.error fault) p

theorem exists_reaches_parts (markup : Bool) (t : Tag) (depth : Nat) (rest : List Char) :
    let p : Point := ⟨.tag, ⟨true, depth, .code, 0⟩, if t.closing then t.text else t.expanded,
      some rest⟩
    (∀ parts, t.parts depth = .ok parts →
      Reaches markup p ⟨.tag, ⟨true, depth, .code, 0⟩, [], some rest⟩) ∧
    ∀ fault, t.parts depth = .error fault → ∃ q, Reaches markup p q ∧ BlockEnd (.error fault) q := by
  intro p
  have htag : Reaches markup p _ :=
    reaches_tag (g := ⟨true, depth, .code, 0⟩) rfl rfl rest (if t.closing then t.text else t.expanded)
  unfold Tag.parts
  split
  · rename_i parts hparts
    rw [hparts] at htag
    refine ⟨fun _ _ => htag, ?_⟩
    intro fault h
    cases h
  · rename_i braces hparts
    rw [hparts] at htag
    constructor
    · intro parts h
      cases h
    · intro fault h
      cases h
      exact ⟨_, htag, .failed rfl rfl⟩

theorem step_tag (markup : Bool) (depth : Nat) (rest : List Char) :
    Point.step markup ⟨.tag, ⟨true, depth, .code, 0⟩, [], some rest⟩ =
      if depth = 0 then some ⟨.script false, {}, rest, none⟩
      else some ⟨.content false, ⟨true, depth, .code, 0⟩, rest, none⟩ := by
  by_cases hdepth : depth = 0
  · subst hdepth
    rfl
  · simp [Point.step, hdepth]

theorem map_rest_push (item : Item) (parts : List Part) (x : Except BlockFault Remainder) :
    (x.map (Remainder.push item parts)).map Remainder.rest = x.map Remainder.rest := by
  cases x <;> rfl

/-- An item that is no tag leaves the depth as it is, and the run goes on behind it. -/
theorem exists_reaches_cons {a a' : Bool} {c : Char} {s : List Char} {i : ItemRead} {depth : Nat}
    {item : Item} {parts : List Part} {x : Except BlockFault Remainder}
    (hi : readItem a c s = .ok i) (hplain : i.item.tag? = none) (hcolon : c = '/' → a' = a)
    (htail : ∀ {b : Bool}, (i.rest ≠ [] → i.mode = .code) →
      (i.rest.head? = some '/' → b = i.item.endsWithColon) →
      ∃ p, Reaches markup ⟨.content b, ⟨true, depth, i.mode, 0⟩, i.rest, none⟩ p ∧
        BlockEnd (x.map Remainder.rest) p) :
    ∃ p, Reaches markup ⟨.content a', ⟨true, depth, .code, 0⟩, c :: s, none⟩ p ∧
      BlockEnd ((x.map (Remainder.push item parts)).map Remainder.rest) p := by
  obtain ⟨p, hreach, hend⟩ := exists_reaches_item (g := ⟨true, depth, .code, 0⟩) rfl rfl hcolon
  rw [hi] at hend
  cases hend with
  | tag t rest => cases hplain
  | other _ colon mode =>
      obtain ⟨p, hrest, hend⟩ := htail mode colon
      rw [map_rest_push]
      exact ⟨p, hreach.trans hrest, hend⟩

theorem reaches_readTag {a a' : Bool} {c : Char} {s : List Char} {i : ItemRead} {t : Tag}
    (hi : readItem a c s = .ok i) (ht : i.item = .tag t) (hcolon : c = '/' → a' = a) {depth : Nat}
    (hdepth : t.closing = true → 0 < depth) :
    i.mode = .code ∧ Reaches markup ⟨.content a', ⟨true, depth, .code, 0⟩, c :: s, none⟩
      ⟨.tag, ⟨true, t.nesting depth, .code, 0⟩, if t.closing then t.text else t.expanded,
        some i.rest⟩ := by
  obtain ⟨p, hreach, hend⟩ := exists_reaches_item (g := ⟨true, depth, .code, 0⟩) rfl rfl hcolon
  rw [hi] at hend
  cases hend with
  | tag t' rest =>
      cases ht
      rw [t.nesting_eq_add_weight hdepth]
      exact ⟨rfl, hreach⟩
  | other plain _ _ =>
      rw [ht] at plain
      cases plain

theorem exists_reaches_content {depth : Nat} {a a' : Bool} {mode : Mode} {s : List Char}
    (hdepth : 0 < depth) (hmode : s ≠ [] → mode = .code) (hcolon : s.head? = some '/' → a' = a) :
    ∃ p, Reaches markup ⟨.content a', ⟨true, depth, mode, 0⟩, s, none⟩ p ∧
      BlockEnd ((readContent depth a mode s).map Remainder.rest) p := by
  fun_induction readContent depth a mode s generalizing a' with
  | case1 depth a mode => exact ⟨_, .of_step rfl (.refl _), .failed rfl rfl⟩
  | case2 depth a mode c s braces hi =>
      obtain rfl := hmode (List.cons_ne_nil c s)
      obtain ⟨p, hreach, hend⟩ := exists_reaches_item (g := ⟨true, depth, .code, 0⟩) rfl rfl
        fun hc => hcolon (congrArg some hc)
      rw [hi] at hend
      cases hend
      exact ⟨_, hreach, .failed rfl rfl⟩
  | case3 depth a mode c s i hi t ht ih =>
      obtain rfl := hmode (List.cons_ne_nil c s)
      exact exists_reaches_cons hi (by rw [ht]; rfl) (fun hc => hcolon (congrArg some hc))
        (ih hdepth)
  | case4 depth a mode c s i hi t ht ih =>
      obtain rfl := hmode (List.cons_ne_nil c s)
      refine exists_reaches_cons hi (by rw [ht]; rfl) (fun hc => hcolon (congrArg some hc)) ?_
      rw [ht]
      exact ih hdepth
  | case5 depth a mode c s i hi t ht ih =>
      obtain rfl := hmode (List.cons_ne_nil c s)
      refine exists_reaches_cons hi (by rw [ht]; rfl) (fun hc => hcolon (congrArg some hc)) ?_
      rw [ht]
      exact ih hdepth
  | case6 depth a mode c s i hi t ht fault hp =>
      obtain rfl := hmode (List.cons_ne_nil c s)
      obtain ⟨-, hreach⟩ := reaches_readTag hi ht (fun hc => hcolon (congrArg some hc))
        fun _ => hdepth
      obtain ⟨p, htext, hend⟩ := (exists_reaches_parts markup t (t.nesting depth) i.rest).2 fault hp
      exact ⟨p, hreach.trans htext, hend⟩
  | case7 depth a mode c s i hi t ht parts hp hz =>
      obtain rfl := hmode (List.cons_ne_nil c s)
      obtain ⟨-, hreach⟩ := reaches_readTag hi ht (fun hc => hcolon (congrArg some hc))
        fun _ => hdepth
      have htext := (exists_reaches_parts markup t (t.nesting depth) i.rest).1 parts hp
      have hstep := step_tag markup (t.nesting depth) i.rest
      rw [if_pos hz] at hstep
      exact ⟨_, hreach.trans (htext.trans (.of_step hstep (.refl _))), .closed i.rest⟩
  | case8 depth a mode c s i hi t ht parts hp hz ih =>
      obtain rfl := hmode (List.cons_ne_nil c s)
      obtain ⟨hcode, hreach⟩ := reaches_readTag hi ht (fun hc => hcolon (congrArg some hc))
        fun _ => hdepth
      have htext := (exists_reaches_parts markup t (t.nesting depth) i.rest).1 parts hp
      have hstep := step_tag markup (t.nesting depth) i.rest
      rw [if_neg hz] at hstep
      obtain ⟨p, hrest, hend⟩ := ih (Nat.pos_of_ne_zero hz) (fun _ => hcode) fun _ => rfl
      rw [map_rest_push]
      rw [hcode] at hrest
      exact ⟨p, hreach.trans (htext.trans (.of_step hstep hrest)), hend⟩

theorem exists_reaches_block {t : Tag} {c : Char} {s content : List Char}
    (hopen : t.closing = false) (hread : Tag.read? (c :: s) = some (t, content)) :
    ∃ p, Reaches markup ⟨.content false, ⟨true, 0, .code, 0⟩, c :: s, none⟩ p ∧
      BlockEnd ((readBlock t content).map BlockRead.rest) p := by
  have hc : c = '<' := by
    have htext := Tag.read?_eq_some hread
    simp only [Tag.text, List.cons_append, List.cons.injEq] at htext
    exact htext.1
  subst hc
  have hdepth : t.closing = true → 0 < 0 := fun hclose =>
    absurd (hopen.symm.trans hclose) (by decide)
  obtain ⟨-, hreach⟩ := reaches_readTag (readItem_tag false hread) rfl (fun _ => rfl) hdepth
  have hparts := exists_reaches_parts markup t (t.nesting 0) content
  unfold readBlock
  split
  · rename_i fault hp
    obtain ⟨p, htext, hend⟩ := hparts.2 fault hp
    exact ⟨p, hreach.trans htext, hend⟩
  · rename_i parts hp
    have htext := hparts.1 parts hp
    have hstep := step_tag markup (t.nesting 0) content
    split
    · rename_i hself
      have hzero : t.nesting 0 = 0 := by simp [Tag.nesting, hopen, hself]
      rw [if_pos hzero] at hstep
      exact ⟨_, hreach.trans (htext.trans (.of_step hstep (.refl _))), .closed content⟩
    · rename_i hself
      have hone : t.nesting 0 = 1 := by simp [Tag.nesting, hopen, hself]
      rw [hone] at hstep htext hreach
      obtain ⟨p, hrest, hend⟩ := exists_reaches_content Nat.one_pos (fun _ => rfl) fun _ => rfl
      have hmap : ((readContent 1 false .code content).map fun r =>
          BlockRead.mk ⟨t.name, parts, r.content, r.closing⟩ (t.text ++ r.source) r.rest).map
            BlockRead.rest = (readContent 1 false .code content).map Remainder.rest := by
        cases readContent 1 false .code content <;> rfl
      rw [hmap]
      exact ⟨p, hreach.trans (htext.trans (.of_step hstep hrest)), hend⟩

/-! ## Tokens -/

/-- A colon in front makes no difference to the mark of a text. -/
def Aligned (markup afterColon : Bool) (s : List Char) : Prop :=
  ∀ c u, s = c :: u → opener? markup afterColon c u = opener? markup false c u

theorem aligned_false (s : List Char) : Aligned markup false s :=
  fun _ _ _ => rfl

theorem aligned_of_marked {afterColon : Bool} {s : List Char} (h : Marked markup afterColon s) :
    Aligned markup afterColon s := by
  rintro c u rfl
  obtain ⟨o, ho⟩ := Option.isSome_iff_exists.1 h
  obtain ⟨-, hcolon, -⟩ | ⟨-, rfl, v, rfl⟩ | ⟨-, hquote⟩ | ⟨t, rest, -, rfl, hopen, hread⟩ :=
    opener?_cases ho
  · rw [hcolon]
  · rw [opener?_slash_star, opener?_slash_star]
  · rw [opener?_quote hquote, opener?_quote hquote]
  · rw [opener?_tag hread hopen, opener?_tag hread hopen]

theorem step_script {afterColon : Bool} {c : Char} {s : List Char} {o : Option Opener}
    (h : opener? markup afterColon c s = o) :
    Point.step markup ⟨.script afterColon, {}, c :: s, none⟩ =
      some (Registers.stepCode {} c s o) := by
  subst h
  rfl

theorem reaches_code {afterColon : Bool} {code rest : List Char}
    (h : Unmarked markup afterColon code rest) :
    Reaches markup ⟨.script afterColon, {}, code ++ rest, none⟩
      ⟨.script (colonAfter afterColon code), {}, rest, none⟩ := by
  induction code generalizing afterColon with
  | nil => exact .refl _
  | cons c code ih => exact .of_step (step_script h.1) (ih h.2)

theorem exists_reaches_token {t : Token} {mode : Mode} {rest : List Char} {a : Bool}
    (h : Stands markup t mode rest) (ha : Aligned markup a (t.text ++ rest)) :
    ∃ b, Reaches markup ⟨.script a, {}, t.text ++ rest, none⟩ ⟨.script b, { mode }, rest, none⟩ ∧
      Aligned markup b rest ∧ (rest ≠ [] → mode = .code) := by
  cases h with
  | @code text _ nonempty unmarked marked =>
      obtain ⟨c, text, rfl⟩ := List.exists_cons_of_ne_nil nonempty
      have hnone := (ha c _ rfl).trans unmarked.1
      exact ⟨_, .of_step (step_script hnone) (reaches_code unmarked.2), aligned_of_marked marked,
        fun _ => rfl⟩
  | @lineComment body _ oneLine stop =>
      have hcomment : Reaches markup _ _ := reaches_lineComment (g := { mode := .lineComment })
        skipsComments_script rfl oneLine stop
      have hmark := (ha '/' _ rfl).trans (opener?_slashes markup (body ++ rest))
      refine ⟨_, .of_step (step_script hmark) hcomment, aligned_false rest, ?_⟩
      intro hne
      exact if_neg (by simpa using hne)
  | @blockComment body _ first =>
      have hcomment : Reaches markup _ _ := reaches_blockComment (g := { mode := .blockComment })
        skipsComments_script rfl (findFirst?_append_right first rest)
      have hmark := opener?_slash_star markup a (body ++ ['*', '/'] ++ rest)
      exact ⟨_, .of_step (step_script hmark) hcomment, aligned_false rest, fun _ => rfl⟩
  | @openBlockComment body open_ =>
      have hcomment : Reaches markup _ _ := reaches_openBlockComment
        (g := { mode := .blockComment }) skipsComments_script rfl open_
      have hmark := opener?_slash_star markup a body
      rw [List.append_nil]
      exact ⟨_, .of_step (step_script hmark) hcomment, aligned_false [], fun hne => absurd rfl hne⟩
  | @string q body _ quote closed =>
      have hstring : Reaches markup _ _ := reaches_string {} q (body ++ rest)
      rw [readString_append_of_closed closed rest] at hstring
      have hmark := opener?_quote quote markup a (body ++ rest)
      exact ⟨_, .of_step (step_script hmark) hstring, aligned_false rest, fun _ => rfl⟩
  | @openString q body quote open_ =>
      have hstring : Reaches markup _ _ := reaches_string {} q body
      rw [open_] at hstring
      have hmark := opener?_quote quote markup a body
      rw [List.append_nil]
      exact ⟨_, .of_step (step_script hmark) hstring, aligned_false [], fun hne => absurd rfl hne⟩
  | @markup tag content r on opening front block =>
      subst on
      have hsource : r.source ++ r.rest = tag.text ++ content := readBlock_source block
      obtain ⟨c, s, hs⟩ := List.exists_cons_of_ne_nil
        (List.append_ne_nil_of_left_ne_nil tag.text_ne_nil content)
      rw [hs] at front hsource
      obtain ⟨p, hreach, hend⟩ := exists_reaches_block opening front
      rw [block] at hend
      cases hend with
      | closed rest =>
          refine ⟨false, ?_, aligned_false r.rest, fun _ => rfl⟩
          show Reaches true ⟨.script a, {}, r.source ++ r.rest, none⟩ _
          rw [hsource]
          exact .of_step (step_script (opener?_tag front opening a)) hreach

/-- The tokens at the front of a source are a stretch of the run. -/
theorem exists_reaches_reads {mode final : Mode} {s : List Char} {xs ys : List Token} {a : Bool}
    (h : Reads markup mode s (xs ++ ys) final) (hmode : s ≠ [] → mode = .code)
    (ha : Aligned markup a s) :
    ∃ b mid, Reaches markup ⟨.script a, { mode }, s, none⟩
        ⟨.script b, { mode := mid }, ys.flatMap Token.text, none⟩ ∧
      Reads markup mid (ys.flatMap Token.text) ys final := by
  induction xs generalizing mode s a with
  | nil =>
      have hs : ys.flatMap Token.text = s := h.flatMap_text
      rw [hs]
      exact ⟨a, mode, .refl _, h⟩
  | cons t xs ih =>
      cases h with
      | @cons _ next _ _ rest _ head tail =>
          obtain rfl := hmode (List.append_ne_nil_of_left_ne_nil head.text_ne_nil rest)
          obtain ⟨b, hreach, hb, hnext⟩ := exists_reaches_token head ha
          obtain ⟨b', mid, hrest, hreads⟩ := ih tail hnext hb
          exact ⟨b', mid, hreach.trans hrest, hreads⟩

/-! ## Scans -/

theorem exists_reaches_fault {line : Nat} {mode : Mode} {s : List Char} {fault : ScanFault} {a : Bool}
    (h : scanFrom markup line mode s = .error fault) (hmode : s ≠ [] → mode = .code)
    (ha : Aligned markup a s) :
    ∃ p, Reaches markup ⟨.script a, { mode }, s, none⟩ p ∧ p.loop = .failed ∧
      p.registers = registersOf fault.state := by
  fun_induction scanFrom markup line mode s generalizing a with
  | case1 => cases h
  | case2 line mode c s f hread =>
      obtain rfl := hmode (List.cons_ne_nil c s)
      cases h
      unfold readToken at hread
      split at hread
      · cases hread
      · split at hread <;> cases hread
      · cases hread
      · rename_i t rest ho
        obtain ⟨h, -⟩ | ⟨h, -⟩ | ⟨h, -⟩ | ⟨_, _, h, rfl, hopen, htag⟩ := opener?_cases ho
        · cases h
        · cases h
        · cases h
        · cases h
          obtain ⟨p, hreach, hend⟩ := exists_reaches_block hopen htag
          cases hblock : readBlock t rest with
          | ok r =>
              rw [hblock] at hread
              cases hread
          | error f' =>
              rw [hblock] at hread hend
              cases hread
              cases hend with
              | failed loop registers =>
                  exact ⟨p, .of_step (step_script (opener?_tag htag hopen a)) hreach, loop, registers⟩
      · cases hread
  | case3 line mode c s t hread ih =>
      obtain rfl := hmode (List.cons_ne_nil c s)
      obtain ⟨hsource, hstands⟩ := readToken_eq_ok_iff.1 hread
      rw [← hsource] at ha ⊢
      obtain ⟨b, hreach, hb, hnext⟩ := exists_reaches_token hstands ha
      cases hrest : scanFrom markup (line + newlines t.token.text) t.mode t.rest with
      | ok r =>
          rw [hrest] at h
          cases h
      | error f =>
          rw [hrest] at h
          cases h
          obtain ⟨p, htail, hfail⟩ := ih hrest hnext hb
          exact ⟨p, hreach.trans htail, hfail⟩

/-- What a scanner is inside of when it stops, whether it succeeds or not. -/
def scanState (source : List Char) (markup : Bool) : ScanState :=
  match scan source markup with
  | .ok r => r.state
  | .error fault => fault.state

/-- The run over a source ends with the state of its scan in the registers. -/
theorem exists_reaches_scan (source : List Char) (markup : Bool) :
    ∃ last, Reaches markup (.start source) last ∧ last.step markup = none ∧
      last.registers = registersOf (scanState source markup) := by
  unfold scanState
  cases hscan : scan source markup with
  | ok r =>
      obtain ⟨final, hreads, hstate⟩ := scan_eq_ok_iff.1 hscan
      have happend : Reads markup .code source (r.tokens ++ []) final := by rwa [List.append_nil]
      obtain ⟨b, mid, hreach, hmid⟩ :=
        exists_reaches_reads happend (fun _ => rfl) (aligned_false source)
      obtain ⟨-, rfl⟩ := hmid.of_nil rfl
      refine ⟨_, hreach, rfl, ?_⟩
      show _ = registersOf r.state
      rw [hstate]
      rfl
  | error fault =>
      obtain ⟨p, hreach, hloop, hregisters⟩ :=
        exists_reaches_fault hscan (fun _ => rfl) (aligned_false source)
      refine ⟨p, hreach, ?_, hregisters⟩
      obtain ⟨loop, g, rest, outer⟩ := p
      cases hloop
      rfl

end ElementBundle.Source
