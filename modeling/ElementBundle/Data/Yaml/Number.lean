import ElementBundle.Data.Yaml.Scalar.Number

/-!
# Numbers as they are written again

A number that is kept is written in the form that it had: base, width, groups of digits, places
behind the point, exponent. Underscores in whole numbers come back at equal distances.
-/

namespace ElementBundle.Data.Yaml

open ElementBundle.Decimal

/-- A number in decimal digits with zeros in front of them, up to a width that counts the sign. -/
def zeroPadded (width : Nat) (sign digits : List Char) : List Char :=
  sign ++ List.replicate (width - sign.length - digits.length) '0' ++ digits

def minus (n : Int) : List Char :=
  if n < 0 then ['-'] else []

/-- Where underscores stand in a whole number: the distance from the end, and whether there is one
at the front or at the end. -/
structure Grouping where
  size : Nat
  front : Bool := false
  back : Bool := false
  deriving DecidableEq, Repr

structure IntForm where
  /-- The mark of the base. -/
  mark : List Char := []
  base : Nat := 10
  capitals : Bool := false
  width : Nat := 0
  grouping : Option Grouping := none
  deriving DecidableEq, Repr

def groupDigits (size : Nat) (s : List Char) : List Char :=
  if size = 0 then s else (go s.length s)
where
  /-- Goes through the characters; the number of those that are left decides. -/
  go : Nat → List Char → List Char
    | n + 1, c :: rest =>
      if n != 0 && n % size == 0 then c :: '_' :: go n rest else c :: go n rest
    | _, rest => rest

def Grouping.apply (g : Grouping) (s : List Char) : List Char :=
  (if g.front then ['_'] else []) ++ groupDigits g.size s ++ (if g.back then ['_'] else [])

def IntForm.text (f : IntForm) (n : Int) : List Char :=
  let digits := Nat.toDigits f.base n.natAbs
  let digits := if f.capitals then digits.map Char.toUpper else digits
  let s := zeroPadded f.width (minus n) digits
  f.mark ++ match f.grouping with
    | some g => g.apply s
    | none => s

/-- The distance of the last underscore inside a number from its end. -/
def groupSize? (text : List Char) : Option Nat :=
  let back := text.reverse.dropWhile (· == '_')
  if back.contains '_' then some (back.takeWhile (· != '_')).length else none

/-- A whole number that is kept. One without a form is written plainly and has no name of its own. -/
structure KeptInt where
  value : Int
  form : Option IntForm := none
  /-- Whether a name stays with it. -/
  named : Bool := true
  deriving DecidableEq, Repr

def capitalFirst (digits : List Char) : Bool :=
  match digits.find? fun c => 'A' ≤ c && c ≤ 'F' || 'a' ≤ c && c ≤ 'f' with
  | some c => c ≤ 'F'
  | none => false

def keepBased (version : Version) (text mark digits : List Char) (base : Nat) (negative : Bool) :
    Except Flaw KeptInt := do
  if version.isLater && digits.isEmpty then .error .emptyNumber
  let n ← intIn base digits
  let width := if version.isLater && digits.head? == some '0' then digits.length else 0
  let grouping := (groupSize? text).map fun size =>
    { size, front := text[2]? == some '_', back := 3 < text.length && text.getLast? == some '_' }
  return {
    value := if negative then -n else n
    form := some { mark, base, capitals := base == 16 && capitalFirst digits, width, grouping } }

def keepInt (version : Version) (text : List Char) : Except Flaw KeptInt :=
  match compact text with
  | [] => .error .emptyNumber
  | c :: s =>
    let negative := c == '-'
    let signed (n : Int) : Int := if negative then -n else n
    let back := 1 < text.length && text.getLast? == some '_'
    let grouping : Option Grouping := (groupSize? text).map fun size => { size, back }
    match unsigned (c :: s) with
    | ['0'] => .ok { value := 0, named := false }
    | '0' :: 'b' :: digits => keepBased version text ['0', 'b'] digits 2 negative
    | '0' :: 'x' :: digits => keepBased version text ['0', 'x'] digits 16 negative
    | '0' :: 'o' :: digits => keepBased version text ['0', 'o'] digits 8 negative
    | digits => do
      if digits.isEmpty then .error .emptyNumber
      let n ← readMagnitude version digits
      if version = .old && (digits.head? == some '0' || digits.contains ':') then
        return { value := signed n, named := false }
      else if version.isLater && digits.head? == some '0' then
        return {
          value := signed n, form := some { width := digits.length, grouping }, named := false }
      else return { value := signed n, form := grouping.map fun g => { grouping := some g } }

def KeptInt.text (k : KeptInt) : List Char :=
  (k.form.getD {}).text k.value

/-- The numerator and denominator of the magnitude of a finite number. -/
def magnitude (x : Float) : Nat × Nat :=
  match Kind.ofFloat x with
  | .finite _ b => scaleBinary b.mantissa b.exponent
  | _ => (0, 1)

def signBit (x : Float) : List Char :=
  match Kind.ofFloat x with
  | .finite true _ => ['-']
  | _ => []

def wholePart (x : Float) : Nat :=
  let (num, den) := magnitude x
  num / den

def fixedPlaces (places : Nat) (x : Float) : List Char :=
  let (num, den) := magnitude x
  let ds := padded (places + 1) (roundDiv (num * Nat.pow 10 places) den)
  let whole := ds.take (ds.length - places)
  if places = 0 then whole else whole ++ '.' :: ds.drop (ds.length - places)

/-- The digits of the magnitude of a number with places behind the first one, and its exponent. -/
def scientificPlaces (places : Nat) (x : Float) : List Char × Int :=
  let (num, den) := magnitude x
  if num = 0 then (List.replicate (places + 1) '0', 0)
  else
    let e := leadingExponent num den
    let shift : Int := places - e
    let n := roundDiv (num * Nat.pow 10 shift.toNat) (den * Nat.pow 10 (-shift).toNat)
    let ds := Nat.toDigits 10 n
    if ds.length = places + 1 then (ds, e) else (ds.take (places + 1), e + 1)

structure ExponentForm where
  mark : Char
  width : Nat
  signed : Bool
  deriving DecidableEq, Repr

/-- The form of a number with a point or an exponent. -/
structure FloatForm where
  /-- The number of characters up to the exponent; a sign counts only without an exponent. -/
  width : Nat
  /-- The offset of the point. -/
  point : Option Nat
  sign : Option Char := none
  /-- The number of zeros in front of all other digits. -/
  zeros : Nat := 0
  exponent : Option ExponentForm := none
  deriving DecidableEq, Repr

structure KeptFloat where
  value : Float
  form : Option FloatForm := none

def leadingZeros (s : List Char) : Nat :=
  ((s.takeWhile fun c => c == '0' || c == '.').filter (· == '0')).length

def splitExponent (text : List Char) : Except Flaw (List Char × Char × List Char) :=
  match splitAt 'e' text, splitAt 'E' text with
  | [m, e], _ => .ok (m, 'e', e)
  | _, [m, e] => .ok (m, 'E', e)
  | _, parts => .error (.exponents parts.length)

def keepFloat (version : Version) (text : List Char) : Except Flaw KeptFloat :=
  match (compact text).map Char.toLower with
  | [] => .error .emptyNumber
  | c :: s =>
    let sign := if c == '-' || c == '+' then some c else none
    let u := unsigned (c :: s)
    let signed (x : Float) : Float := if c == '-' then -x else x
    if u == ".inf".toList || u == ".nan".toList || (version ≠ .usual && u.contains ':') then do
      return { value := signed (← readFloatMagnitude version u) }
    else if u.contains 'e' then do
      let (man, mark, exp) ← splitExponent text
      let x ← floatIn u
      let exponent := some {
        mark, width := exp.length
        signed := exp.head? == some '+' || exp.head? == some '-' }
      return {
        value := signed x
        form := some {
          width := if sign.isSome then man.length - 1 else man.length
          point := man.findIdx? (· == '.'), sign, zeros := leadingZeros man, exponent } }
    else do
      let x ← floatIn u
      return {
        value := signed x
        form := some {
          width := text.length, point := text.findIdx? (· == '.'), sign
          zeros := leadingZeros text } }

def FloatForm.positional (f : FloatForm) (x : Float) : List Char :=
  let sign := f.sign.toList
  let whole := Nat.toDigits 10 (wholePart x)
  match f.point with
  | none => sign ++ zeroPadded (f.width - sign.length) [] whole
  | some p =>
    if 0 < p && p + 1 = f.width then sign ++ whole ++ ['.']
    else
      let s := sign ++ zeroPadded (f.width - sign.length) [] (fixedPlaces (f.width - p - 1) x)
      let s := if p = 0 || (p = 1 && f.sign.isSome) then bareFront s else s
      s ++ List.replicate (f.width - s.length) '0'
where
  /-- Drops the zero in front of the point. -/
  bareFront : List Char → List Char
    | '0' :: '.' :: s => '.' :: s
    | c :: s => c :: bareFront s
    | [] => []

def ExponentForm.text (f : ExponentForm) (e : Int) : List Char :=
  let sign := if e < 0 then ['-'] else if f.signed then ['+'] else []
  f.mark :: zeroPadded f.width sign (Nat.toDigits 10 e.natAbs)

/-- Moves digits over the point until a number of characters stand in front of it. -/
def shiftPoint : Nat → List Char → List Char → Int → List Char × List Char × Int
  | 0, front, back, e => (front, back, e)
  | n + 1, front, back, e =>
    match back with
    | d :: back => shiftPoint n (front ++ [d]) back (e - 1)
    | [] => (front, [], e)

def FloatForm.scientific (f : FloatForm) (exponent : ExponentForm) (x : Float) : List Char :=
  let signWidth := if f.sign.isSome then 1 else 0
  let (digits, e) := scientificPlaces (f.width + signWidth) x
  let front := signBit x ++ digits.take 1
  let kept := (if f.point.any (0 < ·) then f.width else f.width + 1) + (if x < 0.0 then 1 else 0)
  let back := (digits.drop 1).take (kept - front.length - 1)
  let least := if f.point.isSome then f.width - 1 else f.width
  let back := back ++ List.replicate (least - (front.length + back.length)) '0'
  let front := if f.sign.isSome && 0.0 < x then '+' :: front else front
  match f.point with
  | none =>
    let (back, e) := if back = ['0'] then ([], e) else (back, e - back.length)
    let missing := f.width - (front.length + back.length - signWidth)
    front ++ back ++ List.replicate missing '0' ++ exponent.text (e - missing)
  | some 0 => front ++ back ++ '.' :: exponent.text (e - back.length)
  | some p =>
    let (front, back, e) :=
      if 0 < f.zeros then
        let all := List.replicate (f.zeros - 1) '0' ++ front ++ back
        (['0'], all.take (all.length - f.zeros), e + f.zeros)
      else (front, back, e)
    let (front, back, e) := shiftPoint (p - front.length) front back e
    front ++ '.' :: back ++ exponent.text e

/-- A number in the shortest form that reads back. In the old version there is a point in front of an
exponent. -/
def floatText (version : Option Version) (x : Float) : List Char :=
  match Kind.ofFloat x with
  | .notANumber => ".nan".toList
  | .infinite negative => if negative then "-.inf".toList else ".inf".toList
  | .finite .. =>
    let s := Format.delay.float x
    if version = some .old && !s.contains '.' then
      s.takeWhile (· != 'e') ++ (if s.contains 'e' then ['.', '0'] else []) ++
        s.dropWhile (· != 'e')
    else s

def KeptFloat.text (k : KeptFloat) (version : Option Version) : List Char :=
  match k.form, Kind.ofFloat k.value with
  | some f, .finite .. =>
    match f.exponent with
    | none => f.positional k.value
    | some e => f.scientific e k.value
  | _, _ => floatText version k.value

end ElementBundle.Data.Yaml
