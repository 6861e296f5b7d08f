/-!
# Lines

Text files end their lines in three ways, which reading makes one. Splitting a text into lines
recognises more separators than that, and a final separator does not start another line.
-/

namespace ElementBundle.Text

/-- Turns each carriage return, alone or before a line feed, into one line feed. -/
def unifyNewlines : List Char → List Char
  | [] => []
  | '\r' :: '\n' :: s => '\n' :: unifyNewlines s
  | '\r' :: s => '\n' :: unifyNewlines s
  | c :: s => c :: unifyNewlines s

def isLineBreak (c : Char) : Bool :=
  let n := c.toNat
  (0x0A ≤ n && n ≤ 0x0D) || (0x1C ≤ n && n ≤ 0x1E) || n == 0x85 || n == 0x2028 || n == 0x2029

def splitLines : List Char → List (List Char)
  | [] => []
  | '\r' :: '\n' :: s => [] :: splitLines s
  | c :: s =>
    if isLineBreak c then [] :: splitLines s
    else
      match s with
      | [] => [[c]]
      | d :: s =>
        match splitLines (d :: s) with
        | [] => [[c]]
        | l :: ls => (c :: l) :: ls

/-- The pieces between line feeds; `n` line feeds make `n + 1` pieces. -/
def splitNewlines : List Char → List (List Char)
  | [] => [[]]
  | c :: s =>
    match splitNewlines s with
    | [] => [[c]]
    | l :: ls => if c = '\n' then [] :: l :: ls else (c :: l) :: ls

theorem splitNewlines_ne_nil (s : List Char) : splitNewlines s ≠ [] := by
  cases s with
  | nil => simp [splitNewlines]
  | cons c s => rw [splitNewlines]; split <;> (try split) <;> simp

theorem intercalate_splitNewlines (s : List Char) : ['\n'].intercalate (splitNewlines s) = s := by
  induction s with
  | nil => rfl
  | cons c s ih =>
    rw [splitNewlines]
    split
    · rename_i h
      exact absurd h (splitNewlines_ne_nil s)
    · rename_i l ls h
      rw [h] at ih
      split
      · rename_i hc
        subst hc
        simp [List.intercalate, List.intersperse] at ih ⊢
        exact ih
      · cases ls <;> simp_all [List.intercalate, List.intersperse]

end ElementBundle.Text
