import ElementBundle.Component.Name
import ElementBundle.Proofs.Text.Search
import ElementBundle.Proofs.Text.Words
import ElementBundle.Text.Word

/-! # Tags and class names

The tags that are let through are those of `[a-z]+-(-?[a-z0-9]+)+`, and such a
tag with a line feed behind it. The class names of the former are those of
`[A-Z][A-Za-z0-9]*`.
-/

namespace ElementBundle.Component

open ElementBundle.Text

/-! ## The language of tags -/

def LaterWord (s : List Char) : Prop :=
  ∃ word, word ≠ [] ∧ (∀ c ∈ word, isTagWord c = true) ∧ (s = word ∨ s = '-' :: word)

def Kebab (s : List Char) : Prop :=
  ∃ first later, first ≠ [] ∧ (∀ c ∈ first, c.isLower = true) ∧ later ≠ [] ∧
    (∀ w ∈ later, LaterWord w) ∧ s = first ++ '-' :: later.flatten

theorem ne_hyphen_of_isTagWord {c : Char} (h : isTagWord c = true) : c ≠ '-' := by
  intro hc
  rw [hc] at h
  exact absurd h (by decide)

theorem isTagRest_word {word : List Char} (hne : word ≠ [])
    (hword : ∀ c ∈ word, isTagWord c = true) (afterHyphen : Bool) (s : List Char) :
    isTagRest afterHyphen (word ++ s) = isTagRest false s := by
  induction word generalizing afterHyphen with
  | nil => exact absurd rfl hne
  | cons c word ih =>
      have hc := hword c List.mem_cons_self
      rw [List.cons_append, isTagRest, if_neg (ne_hyphen_of_isTagWord hc), hc, Bool.true_and]
      by_cases hnil : word = []
      · rw [hnil]
        rfl
      · exact ih hnil (fun d hd => hword d (List.mem_cons_of_mem c hd)) false

theorem isTagRest_flatten {later : List (List Char)} (h : ∀ w ∈ later, LaterWord w) :
    isTagRest false later.flatten = true := by
  induction later with
  | nil => rfl
  | cons w later ih =>
      have hlater := ih fun v hv => h v (List.mem_cons_of_mem w hv)
      obtain ⟨word, hne, hword, hw⟩ := h w List.mem_cons_self
      rcases hw with rfl | rfl
      · rw [List.flatten_cons, isTagRest_word hne hword, hlater]
      · rw [List.flatten_cons, List.cons_append, isTagRest, if_pos rfl, isTagRest_word hne hword,
          hlater]
        rfl

/-- Where no hyphen stands in front, the word that goes on may be at its end. -/
theorem exists_words_of_isTagRest {afterHyphen : Bool} {s : List Char}
    (h : isTagRest afterHyphen s = true) :
    ∃ (word : List Char) (later : List (List Char)), (afterHyphen = true → word ≠ []) ∧
      (∀ c ∈ word, isTagWord c = true) ∧ (∀ w ∈ later, LaterWord w) ∧
      s = word ++ later.flatten := by
  induction s generalizing afterHyphen with
  | nil =>
      refine ⟨[], [], fun hhyphen => ?_, by simp, by simp, rfl⟩
      rw [hhyphen] at h
      cases h
  | cons c s ih =>
      rw [isTagRest] at h
      split at h
      · rename_i hc
        obtain ⟨hfirst, hrest⟩ := Bool.and_eq_true_iff.1 h
        obtain ⟨word, later, hne, hword, hlater, rfl⟩ := ih hrest
        refine ⟨[], ('-' :: word) :: later, fun hhyphen => ?_, by simp, ?_, by rw [hc]; rfl⟩
        · rw [hhyphen] at hfirst
          cases hfirst
        · exact List.forall_mem_cons.2 ⟨⟨word, hne rfl, hword, .inr rfl⟩, hlater⟩
      · obtain ⟨hc, hrest⟩ := Bool.and_eq_true_iff.1 h
        obtain ⟨word, later, -, hword, hlater, rfl⟩ := ih hrest
        exact ⟨c :: word, later, fun _ => List.cons_ne_nil c word,
          List.forall_mem_cons.2 ⟨hc, hword⟩, hlater, rfl⟩

theorem isTagRest_iff {s : List Char} :
    isTagRest true s = true ↔
      ∃ (word : List Char) (later : List (List Char)), word ≠ [] ∧
        (∀ c ∈ word, isTagWord c = true) ∧ (∀ w ∈ later, LaterWord w) ∧
        s = word ++ later.flatten := by
  constructor
  · intro h
    obtain ⟨word, later, hne, hword, hlater, hs⟩ := exists_words_of_isTagRest h
    exact ⟨word, later, hne rfl, hword, hlater, hs⟩
  · rintro ⟨word, later, hne, hword, hlater, rfl⟩
    rw [isTagRest_word hne hword, isTagRest_flatten hlater]

theorem isKebab_iff {s : List Char} : isKebab s = true ↔ Kebab s := by
  unfold isKebab
  constructor
  · intro h
    obtain ⟨hfirst, hrest⟩ := Bool.and_eq_true_iff.1 h
    have hne : s.takeWhile Char.isLower ≠ [] := by simpa using hfirst
    have hlower : ∀ c ∈ s.takeWhile Char.isLower, c.isLower = true :=
      fun c hc => List.mem_takeWhile_imp hc
    have hs := (List.takeWhile_append_dropWhile (p := Char.isLower) (l := s)).symm
    split at hrest
    · rename_i rest hdrop
      obtain ⟨word, later, hword, hchars, hlater, rfl⟩ := isTagRest_iff.1 hrest
      refine ⟨_, ('-' :: word) :: later, hne, hlower, List.cons_ne_nil _ _, ?_, hs.trans ?_⟩
      · exact List.forall_mem_cons.2 ⟨⟨word, hword, hchars, .inr rfl⟩, hlater⟩
      · rw [hdrop]
        rfl
    · rename_i rest hdouble hdrop
      obtain ⟨word, later, hword, hchars, hlater, rfl⟩ := isTagRest_iff.1 hrest
      refine ⟨_, word :: later, hne, hlower, List.cons_ne_nil _ _, ?_, hs.trans ?_⟩
      · exact List.forall_mem_cons.2 ⟨⟨word, hword, hchars, .inl rfl⟩, hlater⟩
      · rw [hdrop]
        rfl
    · cases hrest
  · rintro ⟨first, later, hne, hlower, hlater, hwords, rfl⟩
    obtain ⟨w, later, rfl⟩ := List.exists_cons_of_ne_nil hlater
    obtain ⟨hw, hlater⟩ := List.forall_mem_cons.1 hwords
    obtain ⟨word, hword, hchars, hw⟩ := hw
    have hrest : isTagRest true (word ++ later.flatten) = true :=
      isTagRest_iff.2 ⟨word, later, hword, hchars, hlater, rfl⟩
    rw [takeWhile_append_stop hlower rfl, dropWhile_append_stop hlower rfl]
    have hfirst : (!first.isEmpty) = true := by simpa using hne
    rw [hfirst, Bool.true_and]
    rcases hw with rfl | rfl
    · obtain ⟨c, word, rfl⟩ := List.exists_cons_of_ne_nil hword
      have hc := ne_hyphen_of_isTagWord (hchars c List.mem_cons_self)
      simpa [hc] using hrest
    · exact hrest

theorem isTag_iff {s : List Char} :
    isTag s = true ↔ Kebab s ∨ ∃ t, s = t ++ ['\n'] ∧ Kebab t := by
  rw [isTag, Bool.or_eq_true, isKebab_iff, Bool.and_eq_true, beq_iff_eq, isKebab_iff]
  constructor
  · rintro (h | ⟨hlast, h⟩)
    · exact .inl h
    · obtain ⟨t, rfl⟩ := List.getLast?_eq_some_iff.1 hlast
      rw [List.dropLast_concat] at h
      exact .inr ⟨t, rfl, h⟩
  · rintro (h | ⟨t, rfl, h⟩)
    · exact .inl h
    · exact .inr ⟨List.getLast?_concat, by rwa [List.dropLast_concat]⟩

theorem Kebab.ne_nil {s : List Char} (h : Kebab s) : s ≠ [] := by
  obtain ⟨first, later, -, -, -, -, rfl⟩ := h
  simp

theorem Kebab.chars {s : List Char} (h : Kebab s) : ∀ c ∈ s, isTagWord c = true ∨ c = '-' := by
  obtain ⟨first, later, -, hlower, -, hlater, rfl⟩ := h
  intro c hc
  rcases List.mem_append.1 hc with hc | hc
  · exact .inl (by rw [isTagWord, hlower c hc, Bool.true_or])
  · rcases List.mem_cons.1 hc with hc | hc
    · exact .inr hc
    · obtain ⟨w, hw, hc⟩ := List.mem_flatten.1 hc
      obtain ⟨word, -, hword, rfl | rfl⟩ := hlater w hw
      · exact .inl (hword c hc)
      · rcases List.mem_cons.1 hc with hc | hc
        · exact .inr hc
        · exact .inl (hword c hc)

/-! ## Class names -/

def Pascal (s : List Char) : Prop :=
  ∃ c rest, s = c :: rest ∧ c.isUpper = true ∧ ∀ d ∈ rest, d.isAlphanum = true

theorem subset_of_mem_splitWhere {p : Char → Bool} {s w : List Char} (hw : w ∈ splitWhere p s) :
    w ⊆ s := by
  induction s generalizing w with
  | nil =>
      obtain rfl := List.mem_singleton.1 hw
      exact List.Subset.refl []
  | cons c s ih =>
      obtain ⟨v, vs, hv⟩ := List.exists_cons_of_ne_nil (splitWhere_ne_nil p s)
      rw [hv] at ih
      simp only [splitWhere, hv] at hw
      split at hw
      · rcases List.mem_cons.1 hw with rfl | hw
        · exact List.nil_subset _
        · exact List.subset_cons_of_subset c (ih hw)
      · rcases List.mem_cons.1 hw with rfl | hw
        · exact List.cons_subset_cons c (ih List.mem_cons_self)
        · exact List.subset_cons_of_subset c (ih (List.mem_cons_of_mem v hw))

theorem className_append {first : List Char} (h : '-' ∉ first) (rest : List Char) :
    className (first ++ '-' :: rest) = capitalized first ++ className rest := by
  have hfirst : ∀ c ∈ first, (c == '-') = false := by
    intro c hc
    rw [beq_eq_false_iff_ne]
    intro hyphen
    rw [hyphen] at hc
    exact h hc
  rw [className, splitWhere_append hfirst rfl, List.flatMap_cons]
  rfl

theorem isAlphanum_of_isTagWord {c : Char} (h : isTagWord c = true) : c.isAlphanum = true := by
  show (c.isUpper || c.isLower || c.isDigit) = true
  rw [isTagWord, Bool.or_eq_true] at h
  rcases h with h | h <;> simp [h]

/-- Upper case takes letters and digits of a tag to single letters and digits. -/
theorem upper_of_isTagWord {c : Char} (h : isTagWord c = true) :
    ∃ d, upper c = [d] ∧ d.isAlphanum = true ∧ (c.isLower = true → d.isUpper = true) := by
  have htable : ∀ n < 128, isTagWord (Char.ofNat n) = true →
      (Char.ofNat n).toUpper.isAlphanum = true ∧
        ((Char.ofNat n).isLower = true → (Char.ofNat n).toUpper.isUpper = true) := by decide
  have hlt : c.toNat < 128 := by
    have hrange := toNat_of_isAlphanum (isAlphanum_of_isTagWord h)
    omega
  have hc := htable c.toNat hlt
  rw [Char.ofNat_toNat] at hc
  exact ⟨c.toUpper, by rw [upper, if_pos hlt], hc h⟩

theorem isAlphanum_capitalized {w : List Char} (h : ∀ c ∈ w, isTagWord c = true) :
    ∀ d ∈ capitalized w, d.isAlphanum = true := by
  cases w with
  | nil => simp [capitalized]
  | cons c w =>
      obtain ⟨hc, hw⟩ := List.forall_mem_cons.1 h
      obtain ⟨d, hd, halpha, -⟩ := upper_of_isTagWord hc
      rw [capitalized, hd]
      exact List.forall_mem_cons.2 ⟨halpha, fun x hx => isAlphanum_of_isTagWord (hw x hx)⟩

theorem isAlphanum_className {s : List Char} (h : ∀ c ∈ s, isTagWord c = true ∨ c = '-') :
    ∀ d ∈ className s, d.isAlphanum = true := by
  intro d hd
  obtain ⟨w, hw, hd⟩ := List.mem_flatMap.1 hd
  apply isAlphanum_capitalized _ d hd
  intro c hc
  have hyphen : (c == '-') = false := not_mem_splitWhere hw c hc
  exact (h c (subset_of_mem_splitWhere hw hc)).resolve_right (by simpa using hyphen)

theorem Kebab.className {s : List Char} (h : Kebab s) : Pascal (className s) := by
  have hchars := h.chars
  obtain ⟨first, later, hne, hlower, -, -, rfl⟩ := h
  have hhyphen : '-' ∉ first := fun hm => absurd (hlower _ hm) (by decide)
  have hall := isAlphanum_className hchars
  obtain ⟨c, first, rfl⟩ := List.exists_cons_of_ne_nil hne
  obtain ⟨hc, -⟩ := List.forall_mem_cons.1 hlower
  obtain ⟨d, hd, -, hupper⟩ := upper_of_isTagWord (by rw [isTagWord, hc, Bool.true_or])
  rw [className_append hhyphen, capitalized, hd] at hall ⊢
  exact ⟨d, _, rfl, hupper hc, (List.forall_mem_cons.1 hall).2⟩

end ElementBundle.Component
