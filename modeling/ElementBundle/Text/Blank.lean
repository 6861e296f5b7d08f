/-!
# Blank characters

The characters that separate words and that trimming removes: white space of all scripts together
with the four information separators.
-/

namespace ElementBundle.Text

/-- Tab to carriage return, the information separators, the space and its relatives. -/
def isBlank (c : Char) : Bool :=
  let n := c.toNat
  (0x09 ≤ n && n ≤ 0x0D) || (0x1C ≤ n && n ≤ 0x20) || n == 0x85 || n == 0xA0 || n == 0x1680
    || (0x2000 ≤ n && n ≤ 0x200A) || n == 0x2028 || n == 0x2029 || n == 0x202F || n == 0x205F
    || n == 0x3000

def dropEndWhile (p : Char → Bool) (s : List Char) : List Char :=
  (s.reverse.dropWhile p).reverse

def trimEnd (s : List Char) : List Char :=
  dropEndWhile isBlank s

def trim (s : List Char) : List Char :=
  trimEnd (s.dropWhile isBlank)

/-- The pieces between the characters of a class; a text without one is a single piece. -/
def splitWhere (p : Char → Bool) : List Char → List (List Char)
  | [] => [[]]
  | c :: r =>
    match splitWhere p r with
    | [] => [[c]]
    | w :: ws => if p c then [] :: w :: ws else (c :: w) :: ws

def words (s : List Char) : List (List Char) :=
  (splitWhere isBlank s).filter (!·.isEmpty)

theorem splitWhere_ne_nil (p : Char → Bool) (s : List Char) : splitWhere p s ≠ [] := by
  cases s with
  | nil => simp [splitWhere]
  | cons c r => rw [splitWhere]; split <;> (try split) <;> simp

theorem not_mem_splitWhere {p : Char → Bool} {s w : List Char} (hw : w ∈ splitWhere p s) :
    ∀ c ∈ w, p c = false := by
  induction s generalizing w with
  | nil => simp_all [splitWhere]
  | cons c r ih =>
    rw [splitWhere] at hw
    split at hw
    · rename_i h
      exact absurd h (splitWhere_ne_nil p r)
    · rename_i v vs h
      rw [h] at ih
      split at hw
      · rcases List.mem_cons.1 hw with rfl | hw
        · simp
        · exact ih hw
      · rename_i hc
        rcases List.mem_cons.1 hw with rfl | hw
        · intro d hd
          rcases List.mem_cons.1 hd with rfl | hd
          · simpa using hc
          · exact ih List.mem_cons_self d hd
        · exact ih (List.mem_cons_of_mem _ hw)

theorem of_mem_words {s w : List Char} (hw : w ∈ words s) : w ≠ [] ∧ ∀ c ∈ w, isBlank c = false := by
  simp only [words, List.mem_filter] at hw
  exact ⟨by simpa using hw.2, not_mem_splitWhere hw.1⟩

end ElementBundle.Text
