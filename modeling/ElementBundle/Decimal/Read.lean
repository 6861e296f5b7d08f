import ElementBundle.Decimal.Shortest
import ElementBundle.Text.Blank
import ElementBundle.Text.Word

/-!
# Reading decimal numbers

The grammar of a number in a text: blanks around it, a sign, digits of any script with single
underscores between them, a point, an exponent; or a word for infinity or for no number.
-/

namespace ElementBundle.Decimal

open ElementBundle.Text

/-- The floating-point number nearest to a decimal. Decimals far outside the range are settled by
their leading exponent alone. -/
def Scaled.toFloat (d : Scaled) : Float :=
  if d.digits == 0 then 0.0
  else
    let magnitude := d.exponent + digitCount d.digits
    if 400 < magnitude then 1.0 / 0.0
    else if magnitude < -400 then 0.0
    else Float.ofScientific d.digits (d.exponent < 0) d.exponent.natAbs

/-- The floating-point number nearest to a whole number, if it is in range. -/
def floatOfInt? (n : Int) : Option Float :=
  let x := Scaled.toFloat ⟨n.natAbs, 0⟩
  if x.isFinite then some (if n < 0 then -x else x) else none

/-- A run of digits, single underscores between them: the digits' values and the rest. -/
def takeDigits : List Char → List Nat × List Char
  | [] => ([], [])
  | c :: s =>
    match digitValue? c with
    | none => ([], c :: s)
    | some d =>
      match s with
      | '_' :: e :: r =>
        if (digitValue? e).isSome then
          let (ds, rest) := takeDigits (e :: r)
          (d :: ds, rest)
        else ([d], s)
      | s =>
        let (ds, rest) := takeDigits s
        (d :: ds, rest)

def ofDigits (ds : List Nat) : Nat :=
  ds.foldl (fun n d => n * 10 + d) 0

def takeSign : List Char → Bool × List Char
  | '-' :: s => (true, s)
  | '+' :: s => (false, s)
  | s => (false, s)

/-- An exponent part up to the end of the text; no text is the exponent zero. -/
def readExponent? : List Char → Option Int
  | [] => some 0
  | c :: s =>
    if c = 'e' || c = 'E' then
      let (negative, s) := takeSign s
      match takeDigits s with
      | ([], _) => none
      | (ds, []) => some (if negative then -(ofDigits ds : Int) else ofDigits ds)
      | _ => none
    else none

/-- The digits after a point and the rest; without a point there are none. -/
def takeFraction : List Char → List Nat × List Char
  | '.' :: s => takeDigits s
  | s => ([], s)

def readUnsigned? (s : List Char) : Option Scaled :=
  let (whole, rest) := takeDigits s
  let (fraction, rest) := takeFraction rest
  if whole.isEmpty && fraction.isEmpty then none
  else
    (readExponent? rest).map fun e => ⟨ofDigits (whole ++ fraction), e - fraction.length⟩

/-- The blanks that may surround a number. The information separators are not among them. -/
def isNumberBlank (c : Char) : Bool :=
  isBlank c && !(0x1C ≤ c.toNat && c.toNat ≤ 0x1F)

def readFloat? (s : List Char) : Option Float :=
  let s := dropEndWhile isNumberBlank (s.dropWhile isNumberBlank)
  let (negative, s) := takeSign s
  let signed (x : Float) : Float := if negative then -x else x
  let word := String.ofList (s.map Char.toLower)
  if word == "inf" || word == "infinity" then some (signed (1.0 / 0.0))
  else if word == "nan" then some (0.0 / 0.0)
  else (readUnsigned? s).map fun d => signed d.toFloat

end ElementBundle.Decimal
