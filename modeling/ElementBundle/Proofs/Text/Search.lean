import ElementBundle.Text.Search
import Mathlib.Data.List.TakeWhile

/-! # Spans and first occurrences

A span of a class of characters ends where a text says that it ends. A search
finds the shortest text before an occurrence; what stands behind that occurrence
can be dropped or added to without moving it.
-/

namespace ElementBundle.Text

/-! ## Spans -/

theorem takeWhile_append_stop {p : Char → Bool} {body rest : List Char}
    (inside : ∀ c ∈ body, p c = true) (stop : rest.head?.any p = false) :
    (body ++ rest).takeWhile p = body := by
  rw [List.takeWhile_append_of_pos inside]
  cases rest with
  | nil => simp
  | cons c rest =>
      have hc : p c = false := stop
      simp [hc]

theorem dropWhile_append_stop {p : Char → Bool} {body rest : List Char}
    (inside : ∀ c ∈ body, p c = true) (stop : rest.head?.any p = false) :
    (body ++ rest).dropWhile p = rest := by
  rw [List.dropWhile_append_of_pos inside]
  cases rest with
  | nil => rfl
  | cons c rest =>
      have hc : p c = false := stop
      simp [hc]

theorem head?_dropWhile_any (p : Char → Bool) (s : List Char) :
    (s.dropWhile p).head?.any p = false := by
  have hhead := List.head?_dropWhile_not p s
  cases hs : (s.dropWhile p).head? with
  | none => rfl
  | some c =>
      rw [hs] at hhead
      exact hhead

/-! ## First occurrences -/

theorem findFirst?_length_le {p s before rest : List Char}
    (h : findFirst? p s = some (before, rest)) {b r : List Char} (hs : s = b ++ p ++ r) :
    before.length ≤ b.length := by
  induction s generalizing before b with
  | nil =>
      have hb := findFirst?_append h
      simp only [List.nil_eq, List.append_eq_nil_iff] at hb
      simp [hb.1.1]
  | cons c s ih =>
      rw [findFirst?] at h
      split at h
      · cases h
        exact Nat.zero_le _
      · rename_i hnone
        obtain ⟨⟨b', r'⟩, hb, he⟩ := Option.map_eq_some_iff.1 h
        cases he
        cases b with
        | nil =>
            rw [List.nil_append, ← dropLeading?_eq_some_iff, hnone] at hs
            cases hs
        | cons d b =>
            simp only [List.cons_append, List.cons.injEq] at hs
            exact Nat.succ_le_succ (ih hb hs.2)

theorem exists_findFirst? {p s b r : List Char} (hs : s = b ++ p ++ r) :
    ∃ before rest, findFirst? p s = some (before, rest) := by
  induction s generalizing b with
  | nil =>
      simp only [List.nil_eq, List.append_eq_nil_iff] at hs
      exact ⟨[], [], by rw [hs.1.2]; rfl⟩
  | cons c s ih =>
      rw [findFirst?]
      split
      · exact ⟨_, _, rfl⟩
      · rename_i hnone
        cases b with
        | nil =>
            rw [List.nil_append, ← dropLeading?_eq_some_iff, hnone] at hs
            cases hs
        | cons d b =>
            simp only [List.cons_append, List.cons.injEq] at hs
            obtain ⟨before, rest, h⟩ := ih hs.2
            exact ⟨c :: before, rest, by rw [h]; rfl⟩

/-- A search succeeds with the shortest text that an occurrence follows. -/
theorem findFirst?_eq_some_iff {p s before rest : List Char} :
    findFirst? p s = some (before, rest) ↔
      s = before ++ p ++ rest ∧ ∀ b r, s = b ++ p ++ r → before.length ≤ b.length := by
  constructor
  · intro h
    exact ⟨findFirst?_append h, fun b r hs => findFirst?_length_le h hs⟩
  · rintro ⟨hs, hmin⟩
    obtain ⟨b, r, h⟩ := exists_findFirst? hs
    have hbr := findFirst?_append h
    have hlen : before.length = b.length :=
      Nat.le_antisymm (hmin b r hbr) (findFirst?_length_le h hs)
    have happend : before ++ (p ++ rest) = b ++ (p ++ r) := by
      rw [← List.append_assoc, ← List.append_assoc, ← hs, ← hbr]
    obtain ⟨rfl, htail⟩ := List.append_inj happend hlen
    rw [h, List.append_cancel_left htail]

theorem findFirst?_eq_none_iff {p s : List Char} : findFirst? p s = none ↔ ¬ p <:+: s := by
  constructor
  · rintro h ⟨a, b, hs⟩
    obtain ⟨before, rest, hfind⟩ := exists_findFirst? hs.symm
    rw [h] at hfind
    cases hfind
  · intro h
    cases hfind : findFirst? p s with
    | none => rfl
    | some x => exact absurd ⟨x.1, x.2, (findFirst?_append hfind).symm⟩ h

theorem findFirst?_append_right {p s before rest : List Char}
    (h : findFirst? p s = some (before, rest)) (more : List Char) :
    findFirst? p (s ++ more) = some (before, rest ++ more) := by
  obtain ⟨hs, hmin⟩ := findFirst?_eq_some_iff.1 h
  refine findFirst?_eq_some_iff.2 ⟨by simp [hs], fun b r hb => ?_⟩
  refine Nat.le_of_not_lt fun hlt => ?_
  have hfit : (b ++ p).length ≤ s.length := by
    rw [hs]
    simp only [List.length_append]
    omega
  have htake := congrArg (List.take (b ++ p).length) hb
  rw [List.take_append_of_le_length hfit, List.take_left] at htake
  have hsplit := (List.take_append_drop (b ++ p).length s).symm
  rw [htake] at hsplit
  have hle := hmin b _ hsplit
  omega

theorem findFirst?_drop_rest {p s before rest : List Char}
    (h : findFirst? p s = some (before, rest)) :
    findFirst? p (before ++ p) = some (before, []) := by
  obtain ⟨hs, hmin⟩ := findFirst?_eq_some_iff.1 h
  refine findFirst?_eq_some_iff.2 ⟨by simp, fun b r hb => hmin b (r ++ rest) ?_⟩
  rw [hs, hb]
  simp

theorem findFirst?_self (p rest : List Char) : findFirst? p (p ++ rest) = some ([], rest) :=
  findFirst?_eq_some_iff.2 ⟨rfl, fun _ _ _ => Nat.zero_le _⟩

/-- A search passes over a text that lacks the first character of the pattern. -/
theorem findFirst?_skip {p a s before rest : List Char} {x : Char} (hp : p.head? = some x)
    (hx : x ∉ a) (h : findFirst? p s = some (before, rest)) :
    findFirst? p (a ++ s) = some (a ++ before, rest) := by
  obtain ⟨p, rfl⟩ := List.head?_eq_some_iff.1 hp
  induction a with
  | nil => exact h
  | cons c a ih =>
      have hc : x ≠ c := fun h => hx (h ▸ List.mem_cons_self)
      have hnone : dropLeading? (x :: p) (c :: (a ++ s)) = none := by rw [dropLeading?, if_neg hc]
      rw [List.cons_append, findFirst?, hnone, ih fun hm => hx (List.mem_cons_of_mem c hm)]
      rfl

end ElementBundle.Text
