/-!
# Matching blocks of two sequences

Two sequences are compared by their longest common run, then by the longest common runs to its left
and to its right, and so on. Of runs of one length the first in the old sequence counts, and of those
the first in the new one. Elements that are frequent in a long new sequence start no run, but extend
one.
-/

namespace ElementBundle.Diff

/-- A run of `size` elements that stands at an offset of each sequence. -/
structure Block where
  old : Nat
  new : Nat
  size : Nat
  deriving DecidableEq, Repr

def commonLength : List Nat → List Nat → Nat
  | a :: as, b :: bs => if a = b then commonLength as bs + 1 else 0
  | _, _ => 0

/-- Lengths of the runs that end at an element and at each element of the new sequence, from those
that end one element before. -/
def extendRuns (frequent : Nat → Bool) (a : Nat) : List Nat → List Nat → List Nat
  | b :: bs, run :: runs =>
    (if a = b && !frequent b then run + 1 else 0) :: extendRuns frequent a bs runs
  | _, _ => []

/-- The best of the runs that end at an element of the old sequence. Only a longer run replaces the
best one. -/
def improve (i : Nat) (best : Block) (j : Nat) : List Nat → Block
  | [] => best
  | run :: runs =>
    improve i (if best.size < run then ⟨i + 1 - run, j + 1 - run, run⟩ else best) (j + 1) runs

def bestRun (frequent : Nat → Bool) (new : List Nat) (i : Nat) (runs : List Nat) (best : Block) :
    List Nat → Block
  | [] => best
  | a :: old =>
    let next := extendRuns frequent a new (0 :: runs)
    bestRun frequent new (i + 1) next (improve i best 0 next) old

/-- The longest common run, extended by equal elements on both sides. -/
def longest (frequent : Nat → Bool) (old new : List Nat) : Block :=
  let b := bestRun frequent new 0 (List.replicate new.length 0) ⟨0, 0, 0⟩ old
  let before := commonLength (old.take b.old).reverse (new.take b.new).reverse
  let after := commonLength (old.drop (b.old + b.size)) (new.drop (b.new + b.size))
  ⟨b.old - before, b.new - before, before + b.size + after⟩

/-- The common runs of two sequences in order, at offsets from given ones. The fuel bounds their
nesting. -/
def blocksFrom (frequent : Nat → Bool) : Nat → Nat → Nat → List Nat → List Nat → List Block
  | 0, _, _, _, _ => []
  | fuel + 1, i, j, old, new =>
    let b := longest frequent old new
    if b.size = 0 then []
    else
      blocksFrom frequent fuel i j (old.take b.old) (new.take b.new) ++
        ⟨i + b.old, j + b.new, b.size⟩ ::
          blocksFrom frequent fuel (i + b.old + b.size) (j + b.new + b.size)
            (old.drop (b.old + b.size)) (new.drop (b.new + b.size))

def joinBlocks : List Block → List Block
  | [] => []
  | b :: bs =>
    match joinBlocks bs with
    | [] => [b]
    | c :: cs =>
      if b.old + b.size = c.old && b.new + b.size = c.new then ⟨b.old, b.new, b.size + c.size⟩ :: cs
      else b :: c :: cs

/-- In a sequence of two hundred elements or more, an element is frequent if it takes more than a
hundredth part and one. -/
def isFrequent (new : List Nat) (b : Nat) : Bool :=
  200 ≤ new.length && new.length / 100 + 1 < new.count b

def blocks (old new : List Nat) : List Block :=
  joinBlocks (blocksFrom (isFrequent new) (old.length + 1) 0 0 old new)

end ElementBundle.Diff
