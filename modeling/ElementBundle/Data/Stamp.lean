import ElementBundle.Decimal.Shortest
import ElementBundle.Text.Quoted

/-!
# Dates and times

A stamp is a day of the calendar, alone or with a time of day. A time of day may have a zone: its
distance from universal time in minutes, and the text that named it. Two times with zones are the
same if they are the same instant.
-/

namespace ElementBundle.Data

structure Date where
  year : Nat
  month : Nat
  day : Nat
  deriving DecidableEq, Repr

structure Zone where
  /-- How far its clocks are ahead of universal time. -/
  minutes : Int
  name : List Char
  deriving DecidableEq, Repr

structure Clock where
  hour : Nat
  minute : Nat
  second : Nat
  micro : Nat := 0
  zone : Option Zone := none
  deriving DecidableEq, Repr

structure Stamp where
  date : Date
  clock : Option Clock := none
  deriving DecidableEq, Repr

/-- What is wrong with numbers that are no stamp. -/
inductive StampError where
  | year (n : Nat)
  | month
  | day
  | hour
  | minute
  | second
  /-- A zone that is a day or more away from universal time. -/
  | zone (minutes : Int)
  /-- The instant behind the last one of the calendar. -/
  | tooLate
  deriving DecidableEq, Repr

def isLeapYear (year : Nat) : Bool :=
  year % 4 == 0 && (year % 100 != 0 || year % 400 == 0)

def monthDays (year month : Nat) : Nat :=
  if month == 2 then if isLeapYear year then 29 else 28
  else if month == 4 || month == 6 || month == 9 || month == 11 then 30
  else 31

def daysBefore (year : Nat) : Nat → Nat
  | 0 | 1 => 0
  | month + 1 => daysBefore year month + monthDays year month

def Date.ordinal (d : Date) : Nat :=
  let years := d.year - 1
  years * 365 + years / 4 - years / 100 + years / 400 + daysBefore d.year d.month + d.day

def Date.check (d : Date) : Except StampError Unit :=
  if d.year < 1 || 9999 < d.year then .error (.year d.year)
  else if d.month < 1 || 12 < d.month then .error .month
  else if d.day < 1 || monthDays d.year d.month < d.day then .error .day
  else .ok ()

def Date.next? (d : Date) : Option Date :=
  if d.day < monthDays d.year d.month then some { d with day := d.day + 1 }
  else if d.month < 12 then some ⟨d.year, d.month + 1, 1⟩
  else if d.year < 9999 then some ⟨d.year + 1, 1, 1⟩
  else none

def Clock.check (c : Clock) : Except StampError Unit :=
  if 23 < c.hour then .error .hour
  else if 59 < c.minute then .error .minute
  else if 59 < c.second then .error .second
  else .ok ()

def Zone.check (z : Zone) : Except StampError Unit :=
  if z.minutes.natAbs < 1440 then .ok () else .error (.zone z.minutes)

def Stamp.later (s : Stamp) : Except StampError Stamp :=
  match s.clock with
  | none => .ok s
  | some c =>
    if c.second < 59 then .ok { s with clock := some { c with second := c.second + 1 } }
    else if c.minute < 59 then
      .ok { s with clock := some { c with second := 0, minute := c.minute + 1 } }
    else
      let c := { c with second := 0, minute := 0 }
      if c.hour < 23 then .ok { s with clock := some { c with hour := c.hour + 1 } }
      else
        match s.date.next? with
        | some date => .ok ⟨date, some { c with hour := 0 }⟩
        | none => .error .tooLate

def Clock.micros (c : Clock) : Nat :=
  ((c.hour * 60 + c.minute) * 60 + c.second) * 1000000 + c.micro

/-- The instant of a stamp in microseconds; a zone moves it to universal time. -/
def Stamp.instant (s : Stamp) : Int :=
  let days : Int := s.date.ordinal
  match s.clock with
  | none => days * 86400000000
  | some c =>
    let ahead := match c.zone with
      | some z => z.minutes
      | none => 0
    days * 86400000000 + c.micros - ahead * 60000000

/-- What a stamp can be compared with: dates with dates, times without zones with each other, and
times with zones. -/
def Stamp.rank (s : Stamp) : Nat :=
  match s.clock with
  | none => 0
  | some c => if c.zone.isNone then 1 else 2

def Stamp.same (s t : Stamp) : Bool :=
  s.rank == t.rank && s.instant == t.instant

/-- The distance of a zone from universal time, with hours and minutes of two digits. -/
def Zone.offset (z : Zone) : List Char :=
  let n := z.minutes.natAbs
  (if z.minutes < 0 then '-' else '+') :: Decimal.padded 2 (n / 60) ++
    ':' :: Decimal.padded 2 (n % 60)

def Date.text (d : Date) : List Char :=
  Decimal.padded 4 d.year ++ '-' :: Decimal.padded 2 d.month ++ '-' :: Decimal.padded 2 d.day

def Clock.text (c : Clock) : List Char :=
  Decimal.padded 2 c.hour ++ ':' :: Decimal.padded 2 c.minute ++ ':' :: Decimal.padded 2 c.second ++
    if c.micro == 0 then [] else '.' :: Decimal.padded 6 c.micro

def Stamp.text (separator : Char) (s : Stamp) : List Char :=
  match s.clock with
  | none => s.date.text
  | some c =>
    s.date.text ++ separator :: c.text ++
      match c.zone with
      | some z => z.offset
      | none => []

/-- A length of time in minutes, as messages show it: whole days, and the seconds that remain. -/
def shownMinutes (minutes : Int) : String :=
  let days := minutes.fdiv 1440
  let seconds := minutes.fmod 1440 * 60
  let parts := (if days == 0 then [] else ["days=" ++ toString days]) ++
    (if seconds == 0 then [] else ["seconds=" ++ toString seconds])
  "datetime.timedelta(" ++ (if parts.isEmpty then "0" else ", ".intercalate parts) ++ ")"

def Stamp.shown (s : Stamp) : String :=
  let date := [s.date.year, s.date.month, s.date.day]
  let list (ns : List Nat) := ", ".intercalate (ns.map toString)
  match s.clock with
  | none => "datetime.date(" ++ list date ++ ")"
  | some c =>
    let fine := if c.micro == 0 then if c.second == 0 then [] else [c.second] else [c.second, c.micro]
    let zone := match c.zone with
      | none => ""
      | some z =>
        ", tzinfo=datetime.timezone(" ++ shownMinutes z.minutes ++ ", " ++
          String.ofList (Text.shown z.name) ++ ")"
    "datetime.datetime(" ++ list (date ++ [c.hour, c.minute] ++ fine) ++ zone ++ ")"

def StampError.text : StampError → String
  | .year n => "year " ++ toString n ++ " is out of range"
  | .month => "month must be in 1..12"
  | .day => "day is out of range for month"
  | .hour => "hour must be in 0..23"
  | .minute => "minute must be in 0..59"
  | .second => "second must be in 0..59"
  | .zone minutes =>
    "offset must be a timedelta strictly between -timedelta(hours=24) and timedelta(hours=24), not " ++
      shownMinutes minutes ++ "."
  | .tooLate => "date value out of range"

end ElementBundle.Data
