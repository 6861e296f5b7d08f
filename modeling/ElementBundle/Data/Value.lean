import ElementBundle.Data.Stamp

/-!
# Values of settings files

What a settings file can hold: nothing, truth values, numbers, texts, dates, bytes, lists, sets and
mappings. A list that is a key of a mapping is a tuple. A message shows a value by `Value.display`;
inside other values texts are quoted.
-/

namespace ElementBundle.Data

open ElementBundle.Text

inductive Shape where
  | list
  | mapping
  deriving DecidableEq, Repr

/-- A value. The entries of a mapping and the members of a set are in the order of their first
appearance. A value that holds itself has a `loop` in the place of the inner one. -/
inductive Value where
  | null
  | bool (b : Bool)
  | int (n : Int)
  | float (x : Float)
  | text (s : String)
  | stamp (s : Stamp)
  | bytes (bs : List UInt8)
  | list (items : List Value)
  | tuple (items : List Value)
  | set (members : List Value)
  | mapping (entries : List (Value × Value))
  | loop (shape : Shape)

instance : Inhabited Value := ⟨.null⟩

def shownByte (quote : Char) (b : UInt8) : List Char :=
  let n := b.toNat
  let c := Char.ofNat n
  if c = quote || c = '\\' then ['\\', c]
  else if c = '\n' then ['\\', 'n']
  else if c = '\r' then ['\\', 'r']
  else if c = '\t' then ['\\', 't']
  else if 0x20 ≤ n && n < 0x7F then [c]
  else '\\' :: 'x' :: hex 2 n

/-- Bytes as they show: characters of basic Latin, and numbers for all others. -/
def shownBytes (bs : List UInt8) : List Char :=
  let quote := shownQuote (bs.map fun b => Char.ofNat b.toNat)
  'b' :: quote :: bs.flatMap (shownByte quote) ++ [quote]

mutual

def Value.shown : Value → String
  | .null => "None"
  | .bool b => if b then "True" else "False"
  | .int n => toString n
  | .float x => String.ofList (Decimal.Format.delay.float x)
  | .text s => String.ofList (Text.shown s.toList)
  | .stamp s => s.shown
  | .bytes bs => String.ofList (shownBytes bs)
  | .list items => "[" ++ ", ".intercalate (shownItems items) ++ "]"
  | .tuple [v] => "(" ++ v.shown ++ ",)"
  | .tuple items => "(" ++ ", ".intercalate (shownItems items) ++ ")"
  | .set [] => "set()"
  | .set members => "\x7b" ++ ", ".intercalate (shownItems members) ++ "\x7d"
  | .mapping entries => "\x7b" ++ ", ".intercalate (shownEntries entries) ++ "\x7d"
  | .loop .list => "[...]"
  | .loop .mapping => "\x7b...\x7d"

def shownItems : List Value → List String
  | [] => []
  | v :: vs => v.shown :: shownItems vs

def shownEntries : List (Value × Value) → List String
  | [] => []
  | (k, v) :: es => (k.shown ++ ": " ++ v.shown) :: shownEntries es

end

def digitLimit : Nat := 4300

/-- The causes for which a value cannot be shown. -/
inductive Unshown where
  | tooManyDigits
  | tooDeep
  deriving DecidableEq, Repr

mutual

/-- What keeps a value from being shown, where values may be nested to some depth. What is met first
counts. -/
def Value.unshown? : Nat → Value → Option Unshown
  | _, .int n => if Decimal.digitCount n.natAbs ≤ digitLimit then none else some .tooManyDigits
  | 0, .list _ | 0, .tuple _ | 0, .set _ | 0, .mapping _ => some .tooDeep
  | depth + 1, .list items | depth + 1, .tuple items | depth + 1, .set items =>
    unshownItem? depth items
  | depth + 1, .mapping entries => unshownPair? depth entries
  | _, _ => none

def unshownItem? (depth : Nat) : List Value → Option Unshown
  | [] => none
  | v :: vs => (v.unshown? depth).or (unshownItem? depth vs)

def unshownPair? (depth : Nat) : List (Value × Value) → Option Unshown
  | [] => none
  | (k, v) :: es => ((k.unshown? depth).or (v.unshown? depth)).or (unshownPair? depth es)

end

def Value.display : Value → String
  | .text s => s
  | .stamp s => String.ofList (s.text ' ')
  | v => v.shown

/-- Whether a value counts as absent: nothing, false, zero, or what holds nothing. -/
def Value.isAbsent : Value → Bool
  | .null => true
  | .bool b => !b
  | .int n => n == 0
  | .float x => x == 0.0
  | .text s => s.isEmpty
  | .bytes bs => bs.isEmpty
  | .list items | .tuple items | .set items => items.isEmpty
  | .mapping entries => entries.isEmpty
  | .stamp _ | .loop _ => false

def Value.get? (v : Value) (key : String) : Option Value :=
  match v with
  | .mapping entries =>
    entries.findSome? fun
      | (.text k, v) => if k = key then some v else none
      | _ => none
  | _ => none

end ElementBundle.Data
