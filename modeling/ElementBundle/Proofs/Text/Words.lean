import ElementBundle.Text.Blank
import ElementBundle.Text.Word

/-! # Words and blanks

No blank is a word character. So a text of words with blanks between them is
split into these words.
-/

namespace ElementBundle.Text

/-! ## Classes of characters -/

def blankCodes : List Nat :=
  [0x09, 0x0A, 0x0B, 0x0C, 0x0D, 0x1C, 0x1D, 0x1E, 0x1F, 0x20, 0x85, 0xA0, 0x1680, 0x2000, 0x2001,
    0x2002, 0x2003, 0x2004, 0x2005, 0x2006, 0x2007, 0x2008, 0x2009, 0x200A, 0x2028, 0x2029, 0x202F,
    0x205F, 0x3000]

theorem toNat_mem_blankCodes {c : Char} (h : isBlank c = true) : c.toNat ∈ blankCodes := by
  simp only [isBlank, Bool.or_eq_true, Bool.and_eq_true, decide_eq_true_eq, beq_iff_eq] at h
  simp only [blankCodes, List.mem_cons, List.not_mem_nil, or_false]
  omega

theorem isWord_eq_false_of_isBlank {c : Char} (h : isBlank c = true) : isWord c = false := by
  have hcodes : blankCodes.all (fun n => !isWord (Char.ofNat n)) = true := by decide +kernel
  have hc := List.all_eq_true.1 hcodes c.toNat (toNat_mem_blankCodes h)
  rw [Char.ofNat_toNat] at hc
  simpa using hc

theorem isNameRest_eq_false_of_isBlank {c : Char} (h : isBlank c = true) :
    isNameRest c = false := by
  have hhyphen : c ≠ '-' := by
    rintro rfl
    exact absurd h (by decide)
  rw [isNameRest, isWord_eq_false_of_isBlank h]
  simp [hhyphen]

/-! ## Splitting -/

theorem splitWhere_append {p : Char → Bool} {a : List Char} {c : Char}
    (ha : ∀ x ∈ a, p x = false) (hc : p c = true) (b : List Char) :
    splitWhere p (a ++ c :: b) = a :: splitWhere p b := by
  induction a with
  | nil =>
      obtain ⟨w, ws, hw⟩ := List.exists_cons_of_ne_nil (splitWhere_ne_nil p b)
      rw [List.nil_append, splitWhere, hw]
      simp [hc]
  | cons x a ih =>
      obtain ⟨hx, ha⟩ := List.forall_mem_cons.1 ha
      rw [List.cons_append, splitWhere, ih ha]
      simp [hx]

theorem splitWhere_of_forall {p : Char → Bool} {a : List Char} (ha : ∀ x ∈ a, p x = false) :
    splitWhere p a = [a] := by
  induction a with
  | nil => rfl
  | cons x a ih =>
      obtain ⟨hx, ha⟩ := List.forall_mem_cons.1 ha
      rw [splitWhere, ih ha]
      simp [hx]

theorem trim_of_forall {s : List Char} (hs : ∀ c ∈ s, isBlank c = false) : trim s = s := by
  have hkeep : ∀ t : List Char, (∀ c ∈ t, isBlank c = false) → t.dropWhile isBlank = t := by
    intro t ht
    cases t with
    | nil => rfl
    | cons c t => rw [List.dropWhile_cons_of_neg (by simp [ht])]
  have hback := hkeep s.reverse fun c hc => hs c (List.mem_reverse.1 hc)
  rw [trim, hkeep s hs, trimEnd, dropEndWhile, hback, List.reverse_reverse]

theorem words_nil : words [] = [] := rfl

theorem words_blanks {blanks : List Char} (hblanks : ∀ b ∈ blanks, isBlank b = true)
    (s : List Char) : words (blanks ++ s) = words s := by
  induction blanks with
  | nil => rfl
  | cons b blanks ih =>
      obtain ⟨hb, hblanks⟩ := List.forall_mem_cons.1 hblanks
      have hsplit := splitWhere_append (a := []) (by simp) hb (blanks ++ s)
      rw [← ih hblanks, List.cons_append, words, ← List.nil_append (b :: _), hsplit]
      rfl

theorem words_append {w rest : List Char} (hne : w ≠ []) (hw : ∀ c ∈ w, isBlank c = false)
    (hrest : rest.head?.all isBlank = true) : words (w ++ rest) = w :: words rest := by
  have hkeep : ∀ ws, (w :: ws).filter (!·.isEmpty) = w :: ws.filter (!·.isEmpty) := by
    simp [hne]
  cases rest with
  | nil =>
      rw [List.append_nil, words, splitWhere_of_forall hw, hkeep]
      rfl
  | cons b rest =>
      have hb : isBlank b = true := hrest
      have hbehind : words ([b] ++ rest) = words rest := words_blanks (by simpa using hb) rest
      rw [words, splitWhere_append hw hb, hkeep]
      exact congrArg (w :: ·) hbehind.symm

end ElementBundle.Text
