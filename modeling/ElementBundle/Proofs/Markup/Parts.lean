import ElementBundle.Markup.Block
import Mathlib.Data.List.Chain

/-! # Parts of a block

What the parts of a block are like, whatever its source. Texts are not empty,
and inside each of the three groups no two of them meet. The text of an
expression is read again up to its own brace, whatever stands behind it. The
parts of a tag make up its text, so the first group ends with an end mark and
the last one starts with a bracket.
-/

namespace ElementBundle.Markup

open ElementBundle.Text

/-! ## Expressions -/

theorem readExpression_quoted {depth : Nat} {q c : Char} (hc : c ≠ '\\') (s : List Char) :
    readExpression depth (some q) (c :: s) =
      (readExpression depth (if c = q then none else some q) s).map fun (a, r) => (c :: a, r) := by
  rw [readExpression]
  · exact fun h => absurd h hc
  · exact fun _ _ h => absurd h hc

/-- An expression is read up to its own brace, whatever stands behind it. -/
theorem readExpression_of_ok {depth : Nat} {q : Option Char} {s inside rest : List Char}
    (h : readExpression depth q s = .ok (inside, rest)) (more : List Char) :
    readExpression depth q (inside ++ '}' :: more) = .ok (inside, more) := by
  fun_induction readExpression depth q s generalizing inside with
  | case1 => cases h
  | case2 => cases h
  | case3 depth q c s ih =>
      obtain ⟨⟨a, r⟩, ha, he⟩ := map_eq_ok h
      cases he
      rw [List.cons_append, List.cons_append, readExpression, ih ha]
      rfl
  | case4 depth q c s hlast hescape ih =>
      obtain ⟨⟨a, r⟩, ha, he⟩ := map_eq_ok h
      cases he
      have hc : c ≠ '\\' := by
        rintro rfl
        cases s with
        | nil => exact hlast rfl rfl
        | cons d s => exact hescape d s rfl rfl
      rw [List.cons_append, readExpression_quoted hc, ih ha]
      rfl
  | case5 depth c s hc ih =>
      obtain ⟨⟨a, r⟩, ha, he⟩ := map_eq_ok h
      cases he
      rw [List.cons_append, readExpression, if_pos hc, ih ha]
      rfl
  | case6 depth s hc ih =>
      obtain ⟨⟨a, r⟩, ha, he⟩ := map_eq_ok h
      cases he
      rw [List.cons_append, readExpression, if_neg hc, if_pos rfl, ih ha]
      rfl
  | case7 depth s hd _ _ =>
      cases h
      rw [List.nil_append, readExpression, if_neg (by decide), if_neg (by decide), if_pos rfl,
        if_pos hd]
  | case8 depth s hd _ _ ih =>
      obtain ⟨⟨a, r⟩, ha, he⟩ := map_eq_ok h
      cases he
      rw [List.cons_append, readExpression, if_neg (by decide), if_neg (by decide), if_pos rfl,
        if_neg hd, ih ha]
      rfl
  | case9 depth c s hc hb hb' ih =>
      obtain ⟨⟨a, r⟩, ha, he⟩ := map_eq_ok h
      cases he
      rw [List.cons_append, readExpression, if_neg hc, if_neg hb, if_neg hb', ih ha]
      rfl

/-! ## Sources of parts -/

section Read

variable {α : Type} {f : Part → List α}
  (hf : ∀ a b, f (.text (a ++ b)) = f (.text a) ++ f (.text b))

include hf

/-- What is read off parts piece by piece does not change when texts are joined. -/
theorem Part.flatMap_push (p : Part) (ps : List Part) :
    (p.push ps).flatMap f = f p ++ ps.flatMap f := by
  unfold Part.push
  split <;> simp [hf]

theorem Part.flatMap_join (front back : List Part) :
    (Part.join front back).flatMap f = front.flatMap f ++ back.flatMap f := by
  induction front with
  | nil => rfl
  | cons p front ih =>
    have hjoin : Part.join (p :: front) back = p.push (Part.join front back) := rfl
    rw [hjoin, Part.flatMap_push hf, ih, List.flatMap_cons, List.append_assoc]

end Read

theorem Part.flatMap_source_push (p : Part) (ps : List Part) :
    (p.push ps).flatMap Part.source = p.source ++ ps.flatMap Part.source :=
  Part.flatMap_push (fun _ _ => rfl) p ps

theorem Part.flatMap_source_join (front back : List Part) :
    (Part.join front back).flatMap Part.source =
      front.flatMap Part.source ++ back.flatMap Part.source :=
  Part.flatMap_join (fun _ _ => rfl) front back

theorem Part.push_text_push (a b : List Char) (ps : List Part) :
    (Part.text a).push ((Part.text b).push ps) = (Part.text (a ++ b)).push ps := by
  cases ps with
  | nil => rfl
  | cons p ps => cases p <;> simp [Part.push]

theorem flatMap_source_tagParts {s : List Char} {parts : List Part} (h : tagParts s = .ok parts) :
    parts.flatMap Part.source = s := by
  fun_induction tagParts s generalizing parts with
  | case1 => cases h; rfl
  | case2 => cases h
  | case3 s inside rest hread ih =>
    obtain ⟨ps, hps, rfl⟩ := map_eq_ok h
    rw [Part.flatMap_source_push, ih hps, readExpression_eq_ok hread]
    simp [Part.source]
  | case4 c s hc ih =>
    obtain ⟨ps, hps, rfl⟩ := map_eq_ok h
    rw [Part.flatMap_source_push, ih hps]
    rfl

/-! ## Legible parts -/

def Part.isText : Part → Bool
  | .text _ => true
  | _ => false

/-- A part that can be read back: a text that is there, or an expression that ends at its own
brace. -/
def Part.Legible : Part → Prop
  | .text s => s ≠ []
  | .expression s => ∀ rest, readExpression 1 none (s ++ '}' :: rest) = .ok (s, rest)
  | .comment _ => True

/-- All parts can be read back, and no two texts meet. -/
structure LegibleParts (parts : List Part) : Prop where
  legible : ∀ p ∈ parts, p.Legible
  apart : parts.IsChain fun p q => p.isText = false ∨ q.isText = false

theorem LegibleParts.nil : LegibleParts [] :=
  ⟨fun _ hp => absurd hp List.not_mem_nil, .nil⟩

theorem LegibleParts.push {p : Part} {ps : List Part} (hp : p.Legible) (h : LegibleParts ps) :
    LegibleParts (p.push ps) := by
  fun_cases Part.push p ps with
  | case1 a b ps =>
      constructor
      · intro q hq
        rcases List.mem_cons.1 hq with rfl | hq
        · exact List.append_ne_nil_of_left_ne_nil hp b
        · exact h.legible q (List.mem_cons_of_mem _ hq)
      · have happart := h.apart
        cases ps with
        | nil => exact .singleton _
        | cons q ps =>
            obtain ⟨hq, htail⟩ := List.isChain_cons_cons.1 happart
            exact List.isChain_cons_cons.2 ⟨hq, htail⟩
  | case2 p ps hmeet =>
      constructor
      · intro q hq
        rcases List.mem_cons.1 hq with rfl | hq
        · exact hp
        · exact h.legible q hq
      · cases ps with
        | nil => exact .singleton _
        | cons q ps =>
            refine List.isChain_cons_cons.2 ⟨?_, h.apart⟩
            cases p with
            | text a =>
                cases q with
                | text b => exact (hmeet a b ps rfl rfl).elim
                | _ => exact .inr rfl
            | _ => exact .inl rfl

theorem LegibleParts.join {front back : List Part} (hfront : ∀ p ∈ front, p.Legible)
    (hback : LegibleParts back) : LegibleParts (Part.join front back) := by
  induction front with
  | nil => exact hback
  | cons p front ih =>
      apply LegibleParts.push (hfront p List.mem_cons_self)
      exact ih fun q hq => hfront q (List.mem_cons_of_mem p hq)

theorem legible_tagParts {s : List Char} {parts : List Part} (h : tagParts s = .ok parts) :
    LegibleParts parts := by
  fun_induction tagParts s generalizing parts with
  | case1 =>
      cases h
      exact .nil
  | case2 => cases h
  | case3 s inside rest hread ih =>
      obtain ⟨ps, hps, rfl⟩ := map_eq_ok h
      exact .push (readExpression_of_ok hread) (ih hps)
  | case4 c s hc ih =>
      obtain ⟨ps, hps, rfl⟩ := map_eq_ok h
      exact .push (List.cons_ne_nil c []) (ih hps)

theorem Tag.parts_eq_ok {t : Tag} {nesting : Nat} {parts : List Part}
    (h : t.parts nesting = .ok parts) :
    tagParts (if t.closing then t.text else t.expanded) = .ok parts := by
  unfold Tag.parts at h
  split at h
  · rename_i ps hps
    cases h
    exact hps
  · cases h

theorem rereads_of_readItem {afterColon : Bool} {c : Char} {s t : List Char} {r : ItemRead}
    (h : readItem afterColon c s = .ok r) (ht : r.item = .expression t) :
    (Part.expression t).Legible := by
  have texts : ∀ u, r.item ≠ .text u := fun u hu => by rw [hu] at ht; cases ht
  unfold readItem at h
  split at h
  · unfold readBraced at h
    split at h
    · cases h
      cases ht
    · obtain ⟨⟨inside, rest⟩, hread, rfl⟩ := map_eq_ok h
      cases ht
      exact readExpression_of_ok hread
  · split at h
    · split at h
      · cases h
        split at texts
        · exact absurd rfl (texts _)
        · exact absurd rfl (texts _)
      · cases h
        unfold readBlockComment at texts
        split at texts <;> exact absurd rfl (texts _)
      · cases h
        cases ht
    · split at h
      · split at h
        · cases h
          unfold readMarkupComment at texts
          split at texts <;> exact absurd rfl (texts _)
        · split at h <;> cases h <;> cases ht
      · cases h
        cases ht

theorem legible_readContent {depth : Nat} {afterColon : Bool} {mode : Mode} {s : List Char}
    {r : Remainder} (hdepth : 0 < depth) (h : readContent depth afterColon mode s = .ok r) :
    LegibleParts r.content ∧ LegibleParts r.closing ∧
      (r.closing.flatMap Part.source).head? = some '<' := by
  have single : ∀ {p : Part}, p.Legible → ∀ q ∈ [p], q.Legible := by
    intro p hp q hq
    rw [List.mem_singleton.1 hq]
    exact hp
  fun_induction readContent depth afterColon mode s generalizing r with
  | case1 => cases h
  | case2 => cases h
  | case3 depth afterColon mode c s i hi t ht ih =>
      obtain ⟨r', hr, rfl⟩ := map_eq_ok h
      obtain ⟨hcontent, hclosing⟩ := ih hdepth hr
      have hsource := readItem_source_ne_nil hi
      rw [ht] at hsource
      exact ⟨.join (single hsource) hcontent, hclosing⟩
  | case4 depth afterColon mode c s i hi t ht ih =>
      obtain ⟨r', hr, rfl⟩ := map_eq_ok h
      obtain ⟨hcontent, hclosing⟩ := ih hdepth hr
      exact ⟨.join (single trivial) hcontent, hclosing⟩
  | case5 depth afterColon mode c s i hi t ht ih =>
      obtain ⟨r', hr, rfl⟩ := map_eq_ok h
      obtain ⟨hcontent, hclosing⟩ := ih hdepth hr
      exact ⟨.join (single (rereads_of_readItem hi ht)) hcontent, hclosing⟩
  | case6 => cases h
  | case7 depth afterColon mode c s i hi t ht parts hp hz =>
      cases h
      have hclosing : t.closing = true := by
        unfold Tag.nesting at hz
        split at hz
        · assumption
        · split at hz <;> omega
      have htag := t.parts_eq_ok hp
      rw [if_pos hclosing] at htag
      refine ⟨.nil, legible_tagParts htag, ?_⟩
      rw [flatMap_source_tagParts htag]
      rfl
  | case8 depth afterColon mode c s i hi t ht parts hp hz ih =>
      obtain ⟨r', hr, rfl⟩ := map_eq_ok h
      obtain ⟨hcontent, hclosing⟩ := ih (by omega) hr
      have htag := legible_tagParts (t.parts_eq_ok hp)
      exact ⟨.join htag.legible hcontent, hclosing⟩

/-! ## Blocks -/

/-- The parts of a block can be read back. Where two groups meet, the first one ends with an end
mark, or the second one starts with a bracket. -/
structure Block.Legible (b : Block) : Prop where
  opening : LegibleParts b.opening
  content : LegibleParts b.content
  closing : LegibleParts b.closing
  stop : (b.opening.flatMap Part.source).getLast? = some '>'
  start : b.closing = [] ∨ (b.closing.flatMap Part.source).head? = some '<'

theorem getLast?_expanded (t : Tag) : t.expanded.getLast? = some '>' := by
  unfold Tag.expanded
  split <;> simp [Tag.text, List.getLast?_cons]

theorem legible_readBlock {t : Tag} {rest : List Char} {r : BlockRead}
    (hopen : t.closing = false) (h : readBlock t rest = .ok r) : r.block.Legible := by
  unfold readBlock at h
  split at h
  · cases h
  · rename_i opening hopening
    have htag := t.parts_eq_ok hopening
    rw [if_neg (by simp [hopen])] at htag
    have hstop : (opening.flatMap Part.source).getLast? = some '>' := by
      rw [flatMap_source_tagParts htag]
      exact getLast?_expanded t
    split at h
    · cases h
      exact ⟨legible_tagParts htag, .nil, .nil, hstop, .inl rfl⟩
    · obtain ⟨r', hr, rfl⟩ := map_eq_ok h
      obtain ⟨hcontent, hclosing, hstart⟩ := legible_readContent Nat.one_pos hr
      exact ⟨legible_tagParts htag, hcontent, hclosing, hstop, .inr hstart⟩

end ElementBundle.Markup
