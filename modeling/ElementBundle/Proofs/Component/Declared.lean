import ElementBundle.Proofs.Component.Outcome
import ElementBundle.Proofs.Text.Words
import Mathlib.Data.List.Perm.Basic

/-! # Declared attributes

The words of a directive are read from left to right, and the names seen so far
decide which of them count. What is kept are the first declarations of all names,
in their order; everything else that spells an attribute is reported.
-/

namespace ElementBundle.Component

open ElementBundle.Text

/-! ## Words -/

/-- The attributes that words spell, one after the other. -/
def spelledBy (ws : List (List Char)) : List Attribute :=
  ws.filterMap fun w => (classify w).1

/-- A word spells an attribute, and no word before it spells one of that name. -/
def FirstSpelled (ws : List (List Char)) (a : Attribute) : Prop :=
  ∃ before word after, ws = before ++ word :: after ∧ (classify word).1 = some a ∧
    ∀ b ∈ spelledBy before, b.name ≠ a.name

theorem spelledBy_cons_none {w : List Char} (h : (classify w).1 = none) (ws : List (List Char)) :
    spelledBy (w :: ws) = spelledBy ws :=
  List.filterMap_cons_none h

theorem spelledBy_cons_some {w : List Char} {a : Attribute} (h : (classify w).1 = some a)
    (ws : List (List Char)) : spelledBy (w :: ws) = a :: spelledBy ws :=
  List.filterMap_cons_some h

/-- A first declaration stays the first one behind a word that spells another name. -/
theorem FirstSpelled.cons {w : List Char} {ws : List (List Char)} {a : Attribute}
    (h : FirstSpelled ws a) (hw : ∀ b, (classify w).1 = some b → b.name ≠ a.name) :
    FirstSpelled (w :: ws) a := by
  obtain ⟨before, word, after, rfl, hword, hbefore⟩ := h
  refine ⟨w :: before, word, after, rfl, hword, fun b hb => ?_⟩
  obtain ⟨v, hv, hspelled⟩ := List.mem_filterMap.1 hb
  rcases List.mem_cons.1 hv with rfl | hv
  · exact hw b hspelled
  · exact hbefore b (List.mem_filterMap.2 ⟨v, hv, hspelled⟩)

theorem classify_eq_of_ne_nil {w : List Char} (hne : w ≠ []) (hw : ∀ c ∈ w, isBlank c = false) :
    (classify w).1 = if (wordShape w).name = [] then none else some (wordShape w) := by
  unfold classify
  simp only [trim_of_forall hw, List.isEmpty_iff, hne, if_false]
  split <;> rfl

theorem wordShape_name_subset (word : List Char) : (wordShape word).name ⊆ word := by
  have hspelled : (spelled word).1 ⊆ word := by
    unfold spelled
    split
    · rename_i name
      intro x hx
      have hmem := List.mem_reverse.1 hx
      exact List.mem_cons_of_mem _ (List.mem_reverse.1 ((List.dropWhile_sublist _).mem hmem))
    · split_ifs
      · exact List.dropLast_subset _
      · exact List.dropLast_subset _
      · exact fun _ hx => hx
  unfold wordShape
  split <;> simp_all

theorem kind_of_required {word : List Char} (h : (wordShape word).required = true) :
    (wordShape word).kind = .plain true := by
  have hpresence : ∀ name required, spelled word = (name, .presence, required) →
      required = false := by
    intro name required hspelled
    unfold spelled at hspelled
    split at hspelled
    · cases hspelled
    · split_ifs at hspelled <;> cases hspelled
      rfl
  unfold wordShape at h ⊢
  split at h
  · rename_i name required hspelled
    obtain rfl : required = true := h
    rfl
  · rename_i name required hspelled
    obtain rfl : required = true := h
    cases hpresence _ _ hspelled
  · cases h

/-! ## One word after the other -/

section Step

variable {taken ws : List (List Char)} {w : List Char} {a : Attribute}

theorem declareFrom_none (h : (classify w).1 = none) :
    declareFrom taken (w :: ws) =
      ((declareFrom taken ws).1, (classify w).2 ++ (declareFrom taken ws).2) := by
  rw [declareFrom]
  split
  · rename_i remarks hclassify
    rw [hclassify]
  · rename_i b remarks hclassify
    rw [hclassify] at h
    cases h

theorem declareFrom_taken (h : (classify w).1 = some a) (ha : a.name ∈ taken) :
    declareFrom taken (w :: ws) = ((declareFrom taken ws).1,
      (classify w).2 ++ .duplicate a.name :: (declareFrom taken ws).2) := by
  rw [declareFrom]
  split
  · rename_i remarks hclassify
    rw [hclassify] at h
    cases h
  · rename_i b remarks hclassify
    rw [hclassify] at h
    cases h
    rw [if_pos (by simpa using ha), hclassify]

theorem declareFrom_new (h : (classify w).1 = some a) (ha : a.name ∉ taken) :
    declareFrom taken (w :: ws) = (a :: (declareFrom (a.name :: taken) ws).1,
      (classify w).2 ++ (declareFrom (a.name :: taken) ws).2) := by
  rw [declareFrom]
  split
  · rename_i remarks hclassify
    rw [hclassify] at h
    cases h
  · rename_i b remarks hclassify
    rw [hclassify] at h
    cases h
    rw [if_neg (by simpa using ha), hclassify]

end Step

/-! ## What is kept -/

/-- The attributes that words declare after the names `taken`. -/
structure Declared (taken ws : List (List Char)) (as : List Attribute) : Prop where
  fresh : ∀ a ∈ as, a.name ∉ taken
  distinct : (as.map Attribute.name).Nodup
  ordered : as.Sublist (spelledBy ws)
  first : ∀ a ∈ as, FirstSpelled ws a
  present : ∀ b ∈ spelledBy ws, b.name ∉ taken → ∃ a ∈ as, a.name = b.name

section Kept

variable {taken ws : List (List Char)} {as : List Attribute} {w : List Char}

theorem declared_nil (taken : List (List Char)) : Declared taken [] [] where
  fresh := by simp
  distinct := List.nodup_nil
  ordered := List.Sublist.refl []
  first := by simp
  present := by simp [spelledBy]

theorem Declared.skip (h : Declared taken ws as) (hw : (classify w).1 = none) :
    Declared taken (w :: ws) as where
  fresh := h.fresh
  distinct := h.distinct
  ordered := by rw [spelledBy_cons_none hw]; exact h.ordered
  first := fun a ha => (h.first a ha).cons fun b hb => by rw [hw] at hb; cases hb
  present := by rw [spelledBy_cons_none hw]; exact h.present

theorem Declared.drop {b : Attribute} (h : Declared taken ws as) (hw : (classify w).1 = some b)
    (hb : b.name ∈ taken) : Declared taken (w :: ws) as where
  fresh := h.fresh
  distinct := h.distinct
  ordered := by rw [spelledBy_cons_some hw]; exact h.ordered.cons b
  first := by
    intro a ha
    refine (h.first a ha).cons fun b' hb' hname => h.fresh a ha ?_
    rw [hw] at hb'
    cases hb'
    rwa [← hname]
  present := by
    rw [spelledBy_cons_some hw]
    intro b' hb' hnew
    rcases List.mem_cons.1 hb' with rfl | hb'
    · exact absurd hb hnew
    · exact h.present b' hb' hnew

theorem Declared.keep {b : Attribute} (h : Declared (b.name :: taken) ws as)
    (hw : (classify w).1 = some b) (hb : b.name ∉ taken) :
    Declared taken (w :: ws) (b :: as) where
  fresh := by
    refine List.forall_mem_cons.2 ⟨hb, fun a ha hmem => ?_⟩
    exact h.fresh a ha (List.mem_cons_of_mem _ hmem)
  distinct := by
    rw [List.map_cons, List.nodup_cons]
    refine ⟨fun hmem => ?_, h.distinct⟩
    obtain ⟨a, ha, hname⟩ := List.mem_map.1 hmem
    exact h.fresh a ha (hname ▸ List.mem_cons_self)
  ordered := by
    rw [spelledBy_cons_some hw]
    exact h.ordered.cons_cons b
  first := by
    refine List.forall_mem_cons.2 ⟨⟨[], w, ws, rfl, hw, by simp [spelledBy]⟩, fun a ha => ?_⟩
    refine (h.first a ha).cons fun b' hb' hname => h.fresh a ha ?_
    rw [hw] at hb'
    cases hb'
    exact hname ▸ List.mem_cons_self
  present := by
    rw [spelledBy_cons_some hw]
    intro b' hb' hnew
    rcases List.mem_cons.1 hb' with rfl | hb'
    · exact ⟨b', List.mem_cons_self, rfl⟩
    · by_cases hname : b'.name = b.name
      · exact ⟨b, List.mem_cons_self, hname.symm⟩
      · obtain ⟨a, ha, hsame⟩ := h.present b' hb' (by simp [hname, hnew])
        exact ⟨a, List.mem_cons_of_mem b ha, hsame⟩

end Kept

theorem declared_declareFrom (taken ws : List (List Char)) :
    Declared taken ws (declareFrom taken ws).1 := by
  induction ws generalizing taken with
  | nil => exact declared_nil taken
  | cons w ws ih =>
      cases hw : (classify w).1 with
      | none =>
          rw [declareFrom_none hw]
          exact (ih taken).skip hw
      | some b =>
          by_cases hb : b.name ∈ taken
          · rw [declareFrom_taken hw hb]
            exact (ih taken).drop hw hb
          · rw [declareFrom_new hw hb]
            exact (ih (b.name :: taken)).keep hw hb

/-! ## What is reported -/

def Remark.isWarning : Remark → Bool
  | .emptyName _ => false
  | .badAccessor _ _ | .duplicate _ => true

/-- The warning about the accessor of a word that spells an attribute. -/
def accessorWarning? (w : List Char) : Option Remark :=
  (classify w).1.bind fun a =>
    if isIdentifier a.identifier then none else some (.badAccessor w a.identifier)

theorem filter_isWarning_classify {w : List Char} (hw : ∀ c ∈ w, isBlank c = false) :
    (classify w).2.filter Remark.isWarning = (accessorWarning? w).toList := by
  unfold accessorWarning? classify
  simp only [trim_of_forall hw]
  split
  · rfl
  split
  · rfl
  · by_cases hident : isIdentifier (wordShape w).identifier = true
    · simp [hident]
    · simp [hident, Remark.isWarning]

/-- There is one warning for each word that is dropped and one for each accessor whose name is no
identifier, whether its word is dropped or not. -/
theorem perm_warnings {ws : List (List Char)} (hws : ∀ w ∈ ws, ∀ c ∈ w, isBlank c = false)
    (taken : List (List Char)) :
    ((declareFrom taken ws).2.filter Remark.isWarning).Perm
      (((spelledBy ws).diff (declareFrom taken ws).1).map (fun a => .duplicate a.name) ++
        ws.filterMap accessorWarning?) := by
  induction ws generalizing taken with
  | nil => exact List.Perm.refl _
  | cons w ws ih =>
      obtain ⟨hw, hws⟩ := List.forall_mem_cons.1 hws
      have hown := filter_isWarning_classify hw
      have hall : (w :: ws).filterMap accessorWarning? =
          (accessorWarning? w).toList ++ ws.filterMap accessorWarning? := by
        cases h : accessorWarning? w <;> simp [h]
      rw [hall]
      cases hspelled : (classify w).1 with
      | none =>
          have hnone : (accessorWarning? w).toList = [] := by
            rw [accessorWarning?, hspelled]
            rfl
          rw [declareFrom_none hspelled, spelledBy_cons_none hspelled, List.filter_append, hown,
            hnone]
          exact ih hws taken
      | some b =>
          rw [spelledBy_cons_some hspelled]
          by_cases hb : b.name ∈ taken
          · have hnot : b ∉ (declareFrom taken ws).1 := fun hmem =>
              (declared_declareFrom taken ws).fresh b hmem hb
            rw [declareFrom_taken hspelled hb, List.filter_append, hown,
              List.cons_diff_of_not_mem hnot]
            refine (List.Perm.append_left _ ((ih hws taken).cons _)).trans ?_
            refine List.perm_middle.trans (List.Perm.cons _ ?_)
            exact List.perm_append_comm_assoc _ _ _
          · rw [declareFrom_new hspelled hb, List.filter_append, hown, List.diff_cons,
              List.erase_cons_head]
            refine (List.Perm.append_left _ (ih hws _)).trans ?_
            exact List.perm_append_comm_assoc _ _ _

/-! ## The whole list -/

theorem declared_declare (specs : List Char) : Declared [] (words specs) (declare specs).1 :=
  declared_declareFrom [] (words specs)

/-- The words of a text spell attributes by their shapes alone, and no shape is refused. -/
theorem spelled_of_mem_words {specs word : List Char} (hword : word ∈ words specs) :
    Attribute.make (spelled word).1 (spelled word).2.1 (spelled word).2.2 = .ok (wordShape word) ∧
      ∀ a, (classify word).1 = some a ↔ a = wordShape word ∧ a.name ≠ [] := by
  obtain ⟨hne, hblank⟩ := of_mem_words hword
  refine ⟨make_spelled word, fun a => ?_⟩
  rw [classify_eq_of_ne_nil hne hblank]
  constructor
  · intro h
    split_ifs at h with hname
    cases h
    exact ⟨rfl, hname⟩
  · rintro ⟨rfl, hname⟩
    rw [if_neg hname]

theorem Declared.of_mem {specs : List Char} {as : List Attribute}
    (h : Declared [] (words specs) as) {a : Attribute} (ha : a ∈ as) :
    ∃ word ∈ words specs, a = wordShape word ∧ a.name ≠ [] := by
  obtain ⟨before, word, after, hsplit, hspelled, -⟩ := h.first a ha
  have hword : word ∈ words specs := by
    rw [hsplit]
    simp
  exact ⟨word, hword, ((spelled_of_mem_words hword).2 a).1 hspelled⟩

/-- What a text declares, whatever it is. No word of it is refused. The names are not empty, hold no
blanks and are distinct; only plain attributes are required; they stand in the order of their words.
A name has an attribute exactly if some word spells one of that name, and it is that of the first
such word. There is one warning for each word that is dropped and one for each word, dropped or not,
whose accessor has no identifier for a name. -/
theorem declare_invariants (specs : List Char) :
    (∀ word ∈ words specs,
      Attribute.make (spelled word).1 (spelled word).2.1 (spelled word).2.2 =
        .ok (wordShape word) ∧
      ∀ a, (classify word).1 = some a ↔ a = wordShape word ∧ a.name ≠ []) ∧
    (∀ a ∈ (declare specs).1, a.name ≠ [] ∧ (∀ c ∈ a.name, isBlank c = false) ∧
      (a.required = true → a.kind = .plain true)) ∧
    ((declare specs).1.map Attribute.name).Nodup ∧
    (declare specs).1.Sublist (spelledBy (words specs)) ∧
    (∀ name, (∃ a ∈ (declare specs).1, a.name = name) ↔
      ∃ b ∈ spelledBy (words specs), b.name = name) ∧
    (∀ a ∈ (declare specs).1, FirstSpelled (words specs) a) ∧
    ((declare specs).2.filter Remark.isWarning).Perm
      (((spelledBy (words specs)).diff (declare specs).1).map (fun a => .duplicate a.name) ++
        (words specs).filterMap accessorWarning?) := by
  have hdeclared := declared_declare specs
  refine ⟨fun word hword => spelled_of_mem_words hword, fun a ha => ?_, hdeclared.distinct,
    hdeclared.ordered, fun name => ⟨?_, ?_⟩, hdeclared.first, ?_⟩
  · obtain ⟨word, hword, rfl, hname⟩ := hdeclared.of_mem ha
    refine ⟨hname, fun c hc => ?_, kind_of_required⟩
    exact (of_mem_words hword).2 c (wordShape_name_subset word hc)
  · rintro ⟨a, ha, rfl⟩
    exact ⟨a, hdeclared.ordered.subset ha, rfl⟩
  · rintro ⟨b, hb, rfl⟩
    exact hdeclared.present b hb List.not_mem_nil
  · exact perm_warnings (fun w hw => (of_mem_words hw).2) []

/-- Stacked marks and names that meet in different shapes: three words are dropped, and four accessors
have no identifier for a name, one of them of a word that is dropped. -/
theorem declare_invariants_marks :
    let specs := ".. .!? x!? size! x!! size? ?! .size".toList
    let size : Attribute := ⟨"size".toList, .plain true⟩
    let kept : List Attribute := [⟨['.'], .classToggle⟩, ⟨['x', '!'], .boolean false⟩, size,
      ⟨['?'], .plain true⟩]
    (declare specs).1 = kept ∧ (kept.map Attribute.name).Nodup ∧
      size.name ≠ [] ∧ (∀ c ∈ size.name, isBlank c = false) ∧ size.kind = .plain true ∧
      FirstSpelled (words specs) size ∧
      Attribute.make ['x', '!'] .presence false = .ok ⟨['x', '!'], .boolean false⟩ ∧
      ((declare specs).2.filter Remark.isWarning).length = 7 := by
  intro specs size kept
  have hkept : (declare specs).1 = kept := by decide +kernel
  obtain ⟨hwords, hall, hdistinct, -, -, hfirst, hwarnings⟩ := declare_invariants specs
  have hsize : size ∈ (declare specs).1 := by
    rw [hkept]
    simp [kept]
  obtain ⟨hname, hblank, hkind⟩ := hall size hsize
  refine ⟨hkept, hkept ▸ hdistinct, hname, hblank, hkind rfl, hfirst size hsize, ?_, ?_⟩
  · exact (hwords "x!?".toList (by decide)).1
  · rw [hwarnings.length_eq]
    decide +kernel

end ElementBundle.Component
