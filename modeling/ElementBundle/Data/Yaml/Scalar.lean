import ElementBundle.Data.Yaml.Token

/-!
# Types of plain scalars

A plain scalar has the type that its text resolves to: nothing, a truth value, a number, a date, or
else a text. What a text resolves to depends on the version of YAML: the old one has more words for
truth values, numbers in base sixty, and no mark for octal digits.
-/

namespace ElementBundle.Data.Yaml

inductive ScalarType where
  | null
  | bool
  | int
  | float
  | stamp
  | merge
  | value
  | text
  deriving DecidableEq, Repr

def unsigned : List Char → List Char
  | '-' :: s | '+' :: s => s
  | s => s

def isRun (p : Char → Bool) (s : List Char) : Bool :=
  !s.isEmpty && s.all p

def isLoose (p : Char → Bool) (c : Char) : Bool :=
  p c || c == '_'

def isOctal (c : Char) : Bool :=
  '0' ≤ c && c ≤ '7'

def isHex (c : Char) : Bool :=
  (hexValue? c).isSome

def startsNumber : List Char → Bool
  | c :: _ => c == '-' || c == '+' || c.isDigit
  | [] => false

/-- Reads one part or more of a number in base sixty, each behind a colon and less than sixty; gives
the rest. -/
def dropSixties : List Char → Option (List Char)
  | ':' :: a :: b :: s =>
    if a.isDigit && b.isDigit then
      if a ≤ '5' then some ((dropSixties s).getD s) else none
    else if a.isDigit then some ((dropSixties (b :: s)).getD (b :: s))
    else none
  | [':', a] => if a.isDigit then some [] else none
  | _ => none

def isInt (version : Version) (s : List Char) : Bool :=
  startsNumber s &&
    match unsigned s with
    | '0' :: 'b' :: digits => isRun (isLoose fun c => c == '0' || c == '1') digits
    | '0' :: 'x' :: digits => isRun (isLoose isHex) digits
    | '0' :: 'o' :: digits => version ≠ .old && isRun (isLoose isOctal) digits
    | digits =>
      if version = .old then
        isRun (isLoose isOctal) digits ||
          match digits with
          | c :: more =>
            '1' ≤ c && c ≤ '9' &&
              (more.all (isLoose Char.isDigit) ||
                dropSixties (more.dropWhile (isLoose Char.isDigit)) == some [])
          | [] => false
      else isRun (isLoose Char.isDigit) digits

/-- Whether a text is an exponent; in front of some it must have a sign. -/
def isExponent (signed : Bool) : List Char → Bool
  | 'e' :: s | 'E' :: s =>
    if signed then
      match s with
      | '-' :: digits | '+' :: digits => isRun Char.isDigit digits
      | _ => false
    else isRun Char.isDigit (unsigned s)
  | _ => false

/-- Whether a text is a number with a point or an exponent, an infinity or no number. -/
def isFloat (version : Version) (s : List Char) : Bool :=
  let loose := isLoose Char.isDigit
  let u := unsigned s
  if s == ".nan".toList || s == ".NaN".toList || s == ".NAN".toList then true
  else if u == ".inf".toList || u == ".Inf".toList || u == ".INF".toList then true
  else
    match u with
    | '.' :: rest =>
      let digits := rest.takeWhile loose
      let rest := rest.dropWhile loose
      !digits.isEmpty && (rest.isEmpty || isExponent true rest) &&
        (version ≠ .old || s.head? == some '.')
    | c :: _ =>
      let rest := u.dropWhile loose
      c.isDigit &&
        match rest with
        | '.' :: rest =>
          let rest := rest.dropWhile loose
          rest.isEmpty || isExponent false rest
        | ':' :: _ =>
          version = .old &&
            match dropSixties rest with
            | some ('.' :: fraction) => fraction.all loose
            | _ => false
        | rest => isExponent false rest
    | [] => false

def dropDigits? (least most : Nat) (s : List Char) : Option (List Char) :=
  let n := min most (s.takeWhile Char.isDigit).length
  if least ≤ n then some (s.drop n) else none

def dropChar? (p : Char → Bool) : List Char → Option (List Char)
  | c :: s => if p c then some s else none
  | [] => none

/-- Whether a text is a time of day with an optional fraction and zone. -/
def isTime (s : List Char) : Bool :=
  let clock := do
    let s ← dropDigits? 1 2 s
    let s ← dropChar? (· == ':') s
    let s ← dropDigits? 2 2 s
    let s ← dropChar? (· == ':') s
    dropDigits? 2 2 s
  match clock with
  | none => false
  | some s =>
    let s := match s with
      | '.' :: s => s.dropWhile Char.isDigit
      | s => s
    match s.dropWhile isTabOrSpace with
    | [] => s.isEmpty
    | ['Z'] => true
    | '-' :: z | '+' :: z =>
      match dropDigits? 1 2 z with
      | some [] => true
      | some (':' :: z) => dropDigits? 2 2 z == some []
      | _ => false
    | _ => false

/-- Whether a text is a date, alone or with a time. A date alone has all its digits. -/
def isStamp (s : List Char) : Bool :=
  let date (least : Nat) := do
    let s ← dropDigits? 4 4 s
    let s ← dropChar? (· == '-') s
    let s ← dropDigits? least 2 s
    let s ← dropChar? (· == '-') s
    dropDigits? least 2 s
  date 2 == some [] ||
    match date 1 with
    | some ('T' :: s) | some ('t' :: s) => isTime s
    | some s =>
      let t := s.dropWhile isTabOrSpace
      t.length < s.length && isTime t
    | none => false

def nullWords : List String :=
  ["", "~", "null", "Null", "NULL"]

def truthWords (version : Version) : List String :=
  ["true", "True", "TRUE", "false", "False", "FALSE"] ++
    if version = .old then
      ["y", "Y", "yes", "Yes", "YES", "n", "N", "no", "No", "NO", "on", "On", "ON", "off", "Off",
        "OFF"]
    else []

def resolve (version : Version) (s : List Char) : ScalarType :=
  let isOf (words : List String) := words.any (·.toList == s)
  if isOf nullWords then .null
  else if isOf (truthWords version) then .bool
  else if isFloat version s then .float
  else if isInt version s then .int
  else if isStamp s then .stamp
  else if isOf ["<<"] then .merge
  else if isOf ["="] then .value
  else .text

end ElementBundle.Data.Yaml
