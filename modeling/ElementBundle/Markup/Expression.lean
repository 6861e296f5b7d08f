import ElementBundle.Text.Search

/-!
# Expressions in braces

An expression runs from an opening brace to the brace that balances it. Braces inside quotes do not
count, and a backslash inside quotes hides the character after it.
-/

namespace ElementBundle.Markup

def isQuote (c : Char) : Bool :=
  c == '\'' || c == '"' || c == '`'

/-- Reads an expression after its opening brace: the text inside and the rest after the balancing
brace. If there is none, the number of braces still open. -/
def readExpression (depth : Nat) : Option Char → List Char → Except Nat (List Char × List Char)
  | _, [] => .error depth
  | some _, ['\\'] => .error depth
  | some q, '\\' :: c :: s => (readExpression depth (some q) s).map fun (a, r) => ('\\' :: c :: a, r)
  | some q, c :: s =>
    (readExpression depth (if c = q then none else some q) s).map fun (a, r) => (c :: a, r)
  | none, c :: s =>
    if isQuote c then (readExpression depth (some c) s).map fun (a, r) => (c :: a, r)
    else if c = '{' then (readExpression (depth + 1) none s).map fun (a, r) => (c :: a, r)
    else if c = '}' then
      if depth ≤ 1 then .ok ([], s)
      else (readExpression (depth - 1) none s).map fun (a, r) => (c :: a, r)
    else (readExpression depth none s).map fun (a, r) => (c :: a, r)

theorem map_eq_ok {ε α β : Type} {f : α → β} {x : Except ε α} {y : β} (h : x.map f = .ok y) :
    ∃ a, x = .ok a ∧ f a = y := by
  cases x with
  | error e => cases h
  | ok a => exact ⟨a, rfl, by cases h; rfl⟩

theorem map_eq_error {ε α β : Type} {f : α → β} {x : Except ε α} {e : ε} (h : x.map f = .error e) :
    x = .error e := by
  cases x with
  | error e' =>
    cases h
    rfl
  | ok a => cases h

theorem readExpression_eq_ok {depth : Nat} {q : Option Char} {s inside rest : List Char}
    (h : readExpression depth q s = .ok (inside, rest)) : s = inside ++ '}' :: rest := by
  fun_induction readExpression depth q s generalizing inside with
  | case1 => cases h
  | case2 => cases h
  | case3 depth q c s ih =>
    obtain ⟨⟨a, r⟩, ha, he⟩ := map_eq_ok h
    cases he
    simp [ih ha]
  | case4 depth q c s _ _ ih =>
    obtain ⟨⟨a, r⟩, ha, he⟩ := map_eq_ok h
    cases he
    simp [ih ha]
  | case5 depth c s _ ih =>
    obtain ⟨⟨a, r⟩, ha, he⟩ := map_eq_ok h
    cases he
    simp [ih ha]
  | case6 depth s _ ih =>
    obtain ⟨⟨a, r⟩, ha, he⟩ := map_eq_ok h
    cases he
    simp [ih ha]
  | case7 =>
    cases h
    simp
  | case8 depth s _ _ _ ih =>
    obtain ⟨⟨a, r⟩, ha, he⟩ := map_eq_ok h
    cases he
    simp [ih ha]
  | case9 depth c s _ _ _ ih =>
    obtain ⟨⟨a, r⟩, ha, he⟩ := map_eq_ok h
    cases he
    simp [ih ha]

end ElementBundle.Markup
