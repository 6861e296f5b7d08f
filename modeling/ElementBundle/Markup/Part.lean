import ElementBundle.Markup.Expression

/-!
# Parts of markup

Markup is kept as a list of parts: literal text, expressions and comments. Adding text in front of
text makes one part of the two.
-/

namespace ElementBundle.Markup

inductive Part where
  | text (s : List Char)
  | expression (s : List Char)
  | comment (s : List Char)
  deriving DecidableEq, Repr

def Part.push : Part → List Part → List Part
  | .text a, .text b :: ps => .text (a ++ b) :: ps
  | p, ps => p :: ps

def Part.join (front back : List Part) : List Part :=
  front.foldr Part.push back

/-- The source text of a part as it stands in the content of an element. -/
def Part.source : Part → List Char
  | .text s => s
  | .expression s => '{' :: s ++ ['}']
  | .comment s => '{' :: '/' :: '*' :: s ++ ['*', '/', '}']

/-- The parts of a tag's text, whose expressions stand in braces. If one is not closed, the number of
braces still open. -/
def tagParts : List Char → Except Nat (List Part)
  | [] => .ok []
  | c :: s =>
    if c = '{' then
      match _h : readExpression 1 none s with
      | .error depth => .error depth
      | .ok (inside, rest) => (tagParts rest).map (Part.push (.expression inside))
    else (tagParts s).map (Part.push (.text [c]))
termination_by s => s.length
decreasing_by
  · have := congrArg List.length (readExpression_eq_ok _h)
    simp at this
    simp only [List.length_cons]
    omega
  · simp

end ElementBundle.Markup
