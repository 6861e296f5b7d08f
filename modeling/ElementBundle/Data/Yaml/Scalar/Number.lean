import ElementBundle.Data.Yaml.Scalar
import ElementBundle.Decimal.Read

/-!
# Numbers in scalars

A number has a sign, digits with underscores anywhere, and a mark of its base. In the old version a
leading zero marks octal digits, and colons divide parts in base sixty.
-/

namespace ElementBundle.Data.Yaml

open ElementBundle.Text

def splitAt (mark : Char) : List Char → List (List Char)
  | [] => [[]]
  | c :: s =>
    match splitAt mark s with
    | piece :: pieces => if c == mark then [] :: piece :: pieces else (c :: piece) :: pieces
    | [] => [[c]]

/-- The value of a digit in a base: a decimal digit of any script, or a letter. -/
def digitIn? (base : Nat) (c : Char) : Option Nat := do
  let n ← digitValue? c <|> hexValue? c
  if n < base then some n else none

def dropBase (base : Nat) : List Char → List Char
  | '0' :: c :: s =>
    if (base == 2 && c.toLower == 'b') || (base == 8 && c.toLower == 'o') ||
        (base == 16 && c.toLower == 'x') then s
    else '0' :: c :: s
  | s => s

def signedDigits (s : List Char) : Bool × List Char :=
  Decimal.takeSign (dropEndWhile Decimal.isNumberBlank (s.dropWhile Decimal.isNumberBlank))

/-- The whole number that a text spells in a base, with blanks around it and a sign. -/
def intIn? (base : Nat) (s : List Char) : Option Int := do
  let (negative, s) := signedDigits s
  let ds ← (dropBase base s).mapM (digitIn? base)
  if ds.isEmpty then none
  else
    let n : Nat := ds.foldl (fun n d => n * base + d) 0
    some (if negative then -n else n)

/-- The whole number that a text must spell in a base. Decimal digits are limited in number. -/
def intIn (base : Nat) (s : List Char) : Except Flaw Int :=
  let digits := ((signedDigits s).2.takeWhile fun c => (digitIn? 10 c).isSome).length
  if base = 10 ∧ digitLimit < digits then .error (.tooManyDigits digits)
  else
    match intIn? base s with
    | some n => .ok n
    | none => .error (.notInt base s)

def floatIn (s : List Char) : Except Flaw Float :=
  match Decimal.readFloat? s with
  | some x => .ok x
  | none => .error (.notFloat s)

def compact (s : List Char) : List Char :=
  s.filter (· != '_')

def readMagnitude (version : Version) : List Char → Except Flaw Int
  | ['0'] => .ok 0
  | '0' :: 'b' :: digits => intIn 2 digits
  | '0' :: 'x' :: digits => intIn 16 digits
  | '0' :: 'o' :: digits => intIn 8 digits
  | digits =>
    if version = .old then
      match digits with
      | [] => .error .emptyNumber
      | '0' :: _ => intIn 8 digits
      | _ =>
        if digits.contains ':' then do
          let parts ← (splitAt ':' digits).mapM (intIn 10)
          return parts.foldl (fun n d => n * 60 + d) 0
        else intIn 10 digits
    else intIn 10 digits

def readInt (version : Version) (text : List Char) : Except Flaw Int :=
  match compact text with
  | [] => .error .emptyNumber
  | c :: s => do
    let n ← readMagnitude version (unsigned (c :: s))
    return if c == '-' then -n else n

def sixtyFold : List Float → Float → Float → Float
  | [], _, sum => sum
  | d :: ds, base, sum => sixtyFold ds (base * 60.0) (sum + d * base)

def readFloatMagnitude (version : Version) (s : List Char) : Except Flaw Float :=
  if s == ".inf".toList then .ok (1.0 / 0.0)
  else if s == ".nan".toList then .ok (0.0 / 0.0)
  else if version ≠ .usual && s.contains ':' then do
    let parts ← (splitAt ':' s).mapM floatIn
    return sixtyFold parts.reverse 1.0 0.0
  else if version ≠ .usual && 2 < (splitAt 'e' s).length then
    .error (.exponents (splitAt 'e' s).length)
  else floatIn s

def readFloat (version : Version) (text : List Char) : Except Flaw Float :=
  match (compact text).map Char.toLower with
  | [] => .error .emptyNumber
  | c :: s => do
    let x ← readFloatMagnitude version (unsigned (c :: s))
    return if c == '-' then -x else x

end ElementBundle.Data.Yaml
