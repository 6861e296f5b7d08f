/-!
# The shortest decimal of a floating-point number

A finite binary number is written with the fewest decimal digits that read back as the same number,
and of those with the digits nearest to it. Exact arithmetic on natural numbers decides both.
-/

namespace ElementBundle.Decimal

/-- A finite binary number `mantissa * 2 ^ exponent`, without its sign. -/
structure Binary where
  mantissa : Nat
  exponent : Int
  deriving DecidableEq, Repr

structure Scaled where
  digits : Nat
  exponent : Int
  deriving DecidableEq, Repr

inductive Kind where
  | finite (negative : Bool) (magnitude : Binary)
  | infinite (negative : Bool)
  | notANumber
  deriving DecidableEq, Repr

def Kind.ofFloat (x : Float) : Kind :=
  let bits := x.toBits.toNat
  let negative := bits / Nat.pow 2 63 == 1
  let biased : Nat := bits / Nat.pow 2 52 % 2048
  let fraction : Nat := bits % Nat.pow 2 52
  if biased == 2047 then if fraction == 0 then .infinite negative else .notANumber
  else if biased == 0 then .finite negative ⟨fraction, -1074⟩
  else .finite negative ⟨Nat.pow 2 52 + fraction, (biased : Int) - 1075⟩

def scaleBinary (n : Nat) (e : Int) : Nat × Nat :=
  (n * Nat.pow 2 e.toNat, Nat.pow 2 (-e).toNat)

def digitCount (n : Nat) : Nat :=
  (Nat.toDigits 10 n).length

/-- The exponent of the leading decimal digit of a positive quotient. -/
def leadingExponent (num den : Nat) : Int :=
  if den ≤ num then (digitCount (num / den) : Int) - 1
  else
    let j := digitCount (den / num) - 1
    if den ≤ num * Nat.pow 10 j then -(j : Int) else -((j : Int) + 1)

/-- The decimals that read back as a given binary number: a closed or open interval whose ends lie
half way to the neighbours. All three numbers are quarters of the last binary place. -/
structure Interval where
  low : Nat
  middle : Nat
  high : Nat
  exponent : Int
  closed : Bool

/-- The interval of a positive binary number. Below a power of two the neighbour is nearer. -/
def Binary.interval (b : Binary) : Interval :=
  let narrow := b.mantissa == Nat.pow 2 52 && b.exponent != -1074
  { low := 4 * b.mantissa - (if narrow then 1 else 2)
    middle := 4 * b.mantissa
    high := 4 * b.mantissa + 2
    exponent := b.exponent - 2
    closed := b.mantissa % 2 == 0 }

def Interval.holds (i : Interval) (c : Nat) (k : Int) : Bool :=
  let (scale, den) := scaleBinary 1 i.exponent
  let point := c * Nat.pow 10 k.toNat * den
  let unit := scale * Nat.pow 10 (-k).toNat
  if i.closed then i.low * unit ≤ point && point ≤ i.high * unit
  else i.low * unit < point && point < i.high * unit

/-- The neighbour of the number on the grid of multiples of `10 ^ k` that reads back, the nearer one
if both do; a tie goes to the even neighbour. -/
def Interval.onGrid? (i : Interval) (k : Int) : Option Scaled :=
  let (num, den) := scaleBinary i.middle i.exponent
  let num := num * Nat.pow 10 (-k).toNat
  let den := den * Nat.pow 10 k.toNat
  let c := num / den
  let twice := 2 * (num % den)
  let nearerUp := den < twice || (den == twice && c % 2 == 1)
  match i.holds c k, i.holds (c + 1) k with
  | true, true => some ⟨if nearerUp then c + 1 else c, k⟩
  | true, false => some ⟨c, k⟩
  | false, true => some ⟨c + 1, k⟩
  | false, false => none

def Interval.search (i : Interval) (k : Int) : Nat → Scaled
  | 0 => ⟨i.middle, k⟩
  | more + 1 =>
    match i.onGrid? k with
    | some d => d
    | none => i.search (k - 1) more

/-- The shortest decimal that reads back as a positive binary number. Seventeen digits always do. -/
def Binary.shortest (b : Binary) : Scaled :=
  let (num, den) := scaleBinary b.mantissa b.exponent
  b.interval.search (leadingExponent num den) 17

/-- Removes zeros from the end of the digits. The fuel bounds their number. -/
def Scaled.trimZeros (d : Scaled) : Nat → Scaled
  | 0 => d
  | fuel + 1 =>
    if d.digits % 10 == 0 && d.digits != 0 then Scaled.trimZeros ⟨d.digits / 10, d.exponent + 1⟩ fuel
    else d

structure Format where
  /-- The least exponent of the leading digit that is written without an exponent part. -/
  leastPositional : Int
  /-- The least exponent of the leading digit that needs an exponent part. -/
  leastScientific : Int
  /-- The least number of digits of an exponent part. -/
  exponentWidth : Nat

/-- Delays are written in full from a ten-thousandth up to ten to the sixteenth. -/
def Format.delay : Format := ⟨-4, 16, 2⟩

def padded (width n : Nat) : List Char :=
  let ds := Nat.toDigits 10 n
  List.replicate (width - ds.length) '0' ++ ds

/-- A positive decimal as text, with at least one digit after the point unless there is an exponent
part. -/
def Format.render (f : Format) (d : Scaled) : List Char :=
  let ds := Nat.toDigits 10 d.digits
  let leading : Int := d.exponent + ds.length - 1
  if f.leastPositional ≤ leading && leading < f.leastScientific then
    if leading < 0 then '0' :: '.' :: List.replicate (-leading - 1).toNat '0' ++ ds
    else
      let whole := leading.toNat + 1
      if ds.length ≤ whole then ds ++ List.replicate (whole - ds.length) '0' ++ ['.', '0']
      else ds.take whole ++ '.' :: ds.drop whole
  else
    let point := if ds.length == 1 then [] else '.' :: ds.drop 1
    let sign := if leading < 0 then '-' else '+'
    ds.take 1 ++ point ++ 'e' :: sign :: padded f.exponentWidth leading.natAbs

def Format.float (f : Format) (x : Float) : List Char :=
  match Kind.ofFloat x with
  | .notANumber => ['n', 'a', 'n']
  | .infinite negative => (if negative then ['-'] else []) ++ ['i', 'n', 'f']
  | .finite negative b =>
    (if negative then ['-'] else []) ++
      if b.mantissa == 0 then ['0', '.', '0'] else f.render (b.shortest.trimZeros 17)

/-- The quotient of two natural numbers rounded to the nearest whole number, a half to the even one. -/
def roundDiv (num den : Nat) : Nat :=
  let q := num / den
  let twice := 2 * (num % den)
  if den < twice || (den == twice && q % 2 == 1) then q + 1 else q

/-- A finite floating-point number rounded to a whole number, a half to the even one. -/
def roundToInt? (x : Float) : Option Int :=
  match Kind.ofFloat x with
  | .finite negative b =>
    let (num, den) := scaleBinary b.mantissa b.exponent
    let n : Int := roundDiv num den
    some (if negative then -n else n)
  | _ => none

end ElementBundle.Decimal
