import ElementBundle.Data.Value
import ElementBundle.Decimal.Read
import ElementBundle.Text.Search

/-!
# JSON

Reading JSON texts. Beyond the standard the words `NaN`, `Infinity` and `-Infinity` are numbers; of
two entries with one key the later counts, in the place of the first. Numbers with a point or an
exponent are floating-point numbers, all others are whole, and a whole number with too many digits
cannot be had.
-/

namespace ElementBundle.Data.Json

open ElementBundle.Text ElementBundle.Decimal

inductive Flaw where
  /-- The rules of JSON are broken. -/
  | malformed
  | tooManyDigits (n : Nat)
  deriving DecidableEq, Repr

def isSpace (c : Char) : Bool :=
  c == ' ' || c == '\t' || c == '\n' || c == '\r'

def skip (s : List Char) : List Char :=
  s.dropWhile isSpace

def hexValue? (c : Char) : Option Nat :=
  if c.isDigit then some (c.toNat - 48)
  else if 'a' ≤ c && c ≤ 'f' then some (c.toNat - 87)
  else if 'A' ≤ c && c ≤ 'F' then some (c.toNat - 55)
  else none

def readUnit? : List Char → Option (Nat × List Char)
  | a :: b :: c :: d :: s => do
    let a ← hexValue? a
    let b ← hexValue? b
    let c ← hexValue? c
    let d ← hexValue? d
    return (((a * 16 + b) * 16 + c) * 16 + d, s)
  | _ => none

/-- The character of a code unit; a unit that is half of a pair is shown as a replacement. -/
def unitChar (n : Nat) : Char :=
  if 0xD800 ≤ n && n ≤ 0xDFFF then Char.ofNat 0xFFFD else Char.ofNat n

/-- The character that an escape spells, after its backslash. Two code units may make one. -/
def readEscape? : List Char → Option (Char × List Char)
  | '"' :: s => some ('"', s)
  | '\\' :: s => some ('\\', s)
  | '/' :: s => some ('/', s)
  | 'b' :: s => some ('\x08', s)
  | 'f' :: s => some ('\x0c', s)
  | 'n' :: s => some ('\n', s)
  | 'r' :: s => some ('\r', s)
  | 't' :: s => some ('\t', s)
  | 'u' :: s =>
    match readUnit? s with
    | none => none
    | some (high, rest) =>
      if 0xD800 ≤ high && high ≤ 0xDBFF then
        match rest with
        | '\\' :: 'u' :: more =>
          match readUnit? more with
          | some (low, after) =>
            if 0xDC00 ≤ low && low ≤ 0xDFFF then
              some (Char.ofNat (0x10000 + (high - 0xD800) * 0x400 + (low - 0xDC00)), after)
            else some (unitChar high, rest)
          | none => none
        | _ => some (unitChar high, rest)
      else some (unitChar high, rest)
  | _ => none

/-- The text of a string literal after its first quote, in reverse, and the rest. The fuel bounds the
number of characters. -/
def readStringAux : Nat → List Char → List Char → Option (List Char × List Char)
  | 0, _, _ => none
  | _ + 1, _, [] => none
  | _ + 1, acc, '"' :: s => some (acc, s)
  | fuel + 1, acc, '\\' :: s =>
    match readEscape? s with
    | some (c, rest) => readStringAux fuel (c :: acc) rest
    | none => none
  | fuel + 1, acc, c :: s => if c.toNat < 0x20 then none else readStringAux fuel (c :: acc) s

/-- The text of a string literal after its first quote, and the rest. -/
def readString? (s : List Char) : Option (String × List Char) :=
  (readStringAux (s.length + 1) [] s).map fun (acc, rest) => (String.ofList acc.reverse, rest)

def takeDigits (s : List Char) : List Char × List Char :=
  (s.takeWhile Char.isDigit, s.dropWhile Char.isDigit)

def digitsValue (ds : List Char) : Nat :=
  ds.foldl (fun n c => n * 10 + (c.toNat - 48)) 0

def takeFraction (s : List Char) : List Char × List Char :=
  match s with
  | '.' :: r =>
    match takeDigits r with
    | ([], _) => ([], s)
    | found => found
  | _ => ([], s)

def takeExponent (s : List Char) : Option Int × List Char :=
  match s with
  | c :: r =>
    if c = 'e' || c = 'E' then
      let (negative, r) := takeSign r
      match takeDigits r with
      | ([], _) => (none, s)
      | (ds, rest) =>
        (some (if negative then -(digitsValue ds : Int) else digitsValue ds), rest)
    else (none, s)
  | [] => (none, s)

def readUnsigned? (negative : Bool) (s : List Char) : Option (Value × List Char) :=
  let (whole, rest) :=
    match s with
    | '0' :: r => (['0'], r)
    | s => takeDigits s
  if whole.isEmpty then none
  else
    let (fraction, rest) := takeFraction rest
    let (exponent, rest) := takeExponent rest
    if fraction.isEmpty && exponent.isNone then
      let n : Int := digitsValue whole
      some (.int (if negative then -n else n), rest)
    else
      let x := Scaled.toFloat ⟨digitsValue (whole ++ fraction), exponent.getD 0 - fraction.length⟩
      some (.float (if negative then -x else x), rest)

def readWord? (s : List Char) : Option (Value × List Char) :=
  let word (w : String) (v : Value) := (dropLeading? w.toList s).map (v, ·)
  word "null" .null <|> word "true" (.bool true) <|> word "false" (.bool false) <|>
    word "NaN" (.float (0.0 / 0.0)) <|> word "Infinity" (.float (1.0 / 0.0)) <|>
    word "-Infinity" (.float (-1.0 / 0.0))

/-- Puts an entry into a mapping: a key that is there gets the new value. -/
def insertEntry (key : String) (value : Value) : List (Value × Value) → List (Value × Value)
  | [] => [(.text key, value)]
  | (.text k, v) :: es =>
    if k = key then (.text k, value) :: es else (.text k, v) :: insertEntry key value es
  | e :: es => e :: insertEntry key value es

def orMalformed {α : Type} : Option α → Except Flaw α
  | some a => .ok a
  | none => .error .malformed

/-- A number at the front of a text, if a whole one has no more digits than can be read. -/
def readNumber (negative : Bool) (s : List Char) : Except Flaw (Value × List Char) :=
  match readUnsigned? negative s with
  | none => .error .malformed
  | some (.int n, rest) =>
    if digitCount n.natAbs ≤ digitLimit then .ok (.int n, rest)
    else .error (.tooManyDigits (digitCount n.natAbs))
  | some found => .ok found

mutual

/-- Reads a value at the front of a text without leading blanks. The fuel bounds the calls. -/
def readValue : Nat → List Char → Except Flaw (Value × List Char)
  | 0, _ => .error .malformed
  | fuel + 1, s =>
    match s with
    | '"' :: r => (orMalformed (readString? r)).map fun (t, rest) => (.text t, rest)
    | '[' :: r =>
      match skip r with
      | ']' :: rest => .ok (.list [], rest)
      | r => (readItems fuel r).map fun (items, rest) => (.list items, rest)
    | '\x7b' :: r =>
      match skip r with
      | '\x7d' :: rest => .ok (.mapping [], rest)
      | r => (readEntries fuel [] r).map fun (entries, rest) => (.mapping entries, rest)
    | c :: r =>
      match readWord? s with
      | some found => .ok found
      | none => if c = '-' then readNumber true r else readNumber false s
    | [] => .error .malformed

def readItems : Nat → List Char → Except Flaw (List Value × List Char)
  | 0, _ => .error .malformed
  | fuel + 1, s =>
    match readValue fuel s with
    | .error flaw => .error flaw
    | .ok (v, rest) =>
      match skip rest with
      | ',' :: r => (readItems fuel (skip r)).map fun (vs, rest) => (v :: vs, rest)
      | ']' :: r => .ok ([v], r)
      | _ => .error .malformed

/-- Reads the entries of a mapping up to its end, after some are read. -/
def readEntries :
    Nat → List (Value × Value) → List Char → Except Flaw (List (Value × Value) × List Char)
  | 0, _, _ => .error .malformed
  | fuel + 1, entries, s =>
    match s with
    | '"' :: r =>
      match readString? r with
      | none => .error .malformed
      | some (key, r) =>
        match skip r with
        | ':' :: r =>
          match readValue fuel (skip r) with
          | .error flaw => .error flaw
          | .ok (v, rest) =>
            match skip rest with
            | ',' :: r => readEntries fuel (insertEntry key v entries) (skip r)
            | '\x7d' :: r => .ok (insertEntry key v entries, r)
            | _ => .error .malformed
        | _ => .error .malformed
    | _ => .error .malformed

end

def read (s : List Char) : Except Flaw Value :=
  match readValue (2 * s.length + 2) (skip s) with
  | .ok (v, rest) => if (skip rest).isEmpty then .ok v else .error .malformed
  | .error flaw => .error flaw

end ElementBundle.Data.Json
