import ElementBundle.Data.Yaml.Scalar

/-!
# Dates and times in scalars

A date has a year of four digits, a month and a day. A time of day may follow it behind a letter or
blanks, with a fraction of any length, which is rounded to microseconds, and a zone.
-/

namespace ElementBundle.Data.Yaml

structure WrittenStamp where
  stamp : Stamp
  /-- Whether a letter stands in front of the time. -/
  lettered : Bool := false
  /-- Whether the zone has a sign. -/
  signed : Bool := false
  deriving DecidableEq, Repr

def takeNumber? (least most : Nat) (s : List Char) : Option (Nat × List Char) :=
  let digits := (s.takeWhile Char.isDigit).take most
  if least ≤ digits.length then
    some (digits.foldl (fun n d => n * 10 + (d.toNat - 48)) 0, s.drop digits.length)
  else none

def readZone? : List Char → Option Zone
  | ['Z'] => some ⟨0, ['Z']⟩
  | sign :: s => do
    if sign ≠ '-' ∧ sign ≠ '+' then none
    else
      let (hours, rest) ← takeNumber? 1 2 s
      let minutes ← match rest with
        | [] => some 0
        | ':' :: rest => do
          let (n, rest) ← takeNumber? 2 2 rest
          if rest.isEmpty then some n else none
        | _ => none
      let n : Int := hours * 60 + minutes
      some ⟨if sign = '-' then -n else n, sign :: s⟩
  | [] => none

/-- The microseconds of a fraction's digits, rounded; they may reach a whole second. -/
def fractionMicros (digits : List Char) : Nat :=
  let value (ds : List Char) := ds.foldl (fun n d => n * 10 + (d.toNat - 48)) 0
  let n := value (digits.take 6) * Nat.pow 10 (6 - digits.length)
  match digits[6]? with
  | some d => if '4' < d then n + 1 else n
  | none => n

/-- A time of day as it is written: its microseconds may reach a whole second. -/
def readClock? (s : List Char) : Option Clock := do
  let (hour, s) ← takeNumber? 1 2 s
  let s ← dropChar? (· == ':') s
  let (minute, s) ← takeNumber? 2 2 s
  let s ← dropChar? (· == ':') s
  let (second, s) ← takeNumber? 2 2 s
  let (micro, s) := match s with
    | '.' :: s => (fractionMicros (s.takeWhile Char.isDigit), s.dropWhile Char.isDigit)
    | s => (0, s)
  match s.dropWhile isTabOrSpace with
  | [] => if s.isEmpty then some { hour, minute, second, micro } else none
  | zone => do
    let zone ← readZone? zone
    some { hour, minute, second, micro, zone := some zone }

def readStamp? (s : List Char) : Option WrittenStamp := do
  let s := if s.getLast? = some '\n' then s.dropLast else s
  let (year, s) ← takeNumber? 4 4 s
  let s ← dropChar? (· == '-') s
  let (month, s) ← takeNumber? 1 2 s
  let s ← dropChar? (· == '-') s
  let (day, s) ← takeNumber? 1 2 s
  let date : Date := ⟨year, month, day⟩
  match s with
  | [] => some { stamp := { date } }
  | c :: s =>
    let lettered := c == 'T' || c == 't'
    if !lettered && !isTabOrSpace c then none
    else
      let clock ← readClock? (if lettered then s else s.dropWhile isTabOrSpace)
      let signed := match clock.zone with
        | some z => z.name ≠ ['Z']
        | none => false
      some { stamp := ⟨date, some clock⟩, lettered, signed }

def checkStamp (s : Stamp) : Except StampError Stamp := do
  match s.clock with
  | none => s.date.check
  | some c =>
    if let some z := c.zone then z.check
    s.date.check
    c.check
  match s.clock with
  | some c =>
    if c.micro < 1000000 then .ok s
    else Stamp.later { s with clock := some { c with micro := 0 } }
  | none => .ok s

def readStamp (text : List Char) : Except Flaw WrittenStamp :=
  match readStamp? text with
  | none => .error .malformed
  | some w =>
    match checkStamp w.stamp with
    | .ok stamp => .ok { w with stamp }
    | .error e => .error (.badStamp e)

end ElementBundle.Data.Yaml
