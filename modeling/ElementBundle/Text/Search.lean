/-!
# Searching and replacing

Texts are lists of characters. A search returns what stands before the first occurrence and what
stands after it, so that nothing is lost: `findFirst?_append`.
-/

namespace ElementBundle.Text

def dropLeading? : List Char → List Char → Option (List Char)
  | [], s => some s
  | _ :: _, [] => none
  | p :: ps, c :: s => if p = c then dropLeading? ps s else none

theorem dropLeading?_eq_some_iff {p s r : List Char} : dropLeading? p s = some r ↔ s = p ++ r := by
  induction p generalizing s with
  | nil => simp [dropLeading?, eq_comm]
  | cons q ps ih =>
    cases s with
    | nil => simp [dropLeading?]
    | cons c s =>
      by_cases h : q = c
      · simp [dropLeading?, h, ih]
      · simp [dropLeading?, h, Ne.symm h]

def startsWith (p s : List Char) : Bool :=
  (dropLeading? p s).isSome

/-- The text before the first occurrence of a pattern and the text after it. -/
def findFirst? (pattern : List Char) : List Char → Option (List Char × List Char)
  | [] => (dropLeading? pattern []).map ([], ·)
  | c :: s =>
    match dropLeading? pattern (c :: s) with
    | some rest => some ([], rest)
    | none => (findFirst? pattern s).map fun (before, rest) => (c :: before, rest)

theorem findFirst?_append {pattern s before rest : List Char}
    (h : findFirst? pattern s = some (before, rest)) : s = before ++ pattern ++ rest := by
  induction s generalizing before with
  | nil =>
    simp only [findFirst?, Option.map_eq_some_iff] at h
    obtain ⟨r, hr, h⟩ := h
    cases h
    simpa using dropLeading?_eq_some_iff.1 hr
  | cons c s ih =>
    rw [findFirst?] at h
    split at h
    · rename_i r hr
      cases h
      simpa using dropLeading?_eq_some_iff.1 hr
    · obtain ⟨⟨b, r⟩, hb, h⟩ := Option.map_eq_some_iff.1 h
      cases h
      simp [ih hb]

/-- Replaces the first occurrence of a pattern; a text without one stays as it is. -/
def replaceFirst (pattern replacement s : List Char) : List Char :=
  match findFirst? pattern s with
  | some (before, rest) => before ++ replacement ++ rest
  | none => s

/-- Replaces every occurrence of a pattern, from left to right. The pattern is a character and what
follows it, so it is never empty. -/
def replaceAll (first : Char) (more replacement : List Char) : List Char → List Char
  | [] => []
  | c :: s =>
    match _h : dropLeading? (first :: more) (c :: s) with
    | some rest => replacement ++ replaceAll first more replacement rest
    | none => c :: replaceAll first more replacement s
termination_by s => s.length
decreasing_by
  · have := congrArg List.length (dropLeading?_eq_some_iff.1 _h)
    simp at this
    simp only [List.length_cons]
    omega
  · simp

theorem replaceAll_leading (first : Char) (more replacement rest : List Char) :
    replaceAll first more replacement (first :: (more ++ rest)) =
      replacement ++ replaceAll first more replacement rest := by
  have h : dropLeading? (first :: more) (first :: (more ++ rest)) = some rest :=
    dropLeading?_eq_some_iff.2 rfl
  rw [replaceAll]
  split
  · rename_i rest' hrest
    rw [Option.some.inj (hrest.symm.trans h)]
  · rename_i hnone
    cases hnone.symm.trans h

theorem replaceAll_cons {first c : Char} {more replacement s : List Char}
    (h : dropLeading? (first :: more) (c :: s) = none) :
    replaceAll first more replacement (c :: s) = c :: replaceAll first more replacement s := by
  rw [replaceAll]
  split
  · rename_i hsome
    cases h.symm.trans hsome
  · rfl

theorem replaceAll_cons_of_ne {first c : Char} (h : first ≠ c) (more replacement s : List Char) :
    replaceAll first more replacement (c :: s) = c :: replaceAll first more replacement s :=
  replaceAll_cons (if_neg h)

def contains (pattern s : List Char) : Bool :=
  (findFirst? pattern s).isSome

def newlines (s : List Char) : Nat :=
  s.count '\n'

end ElementBundle.Text
