import ElementBundle.Data.Value

/-!
# Values as keys

Keys of a mapping are told apart by their values. Truth values are the numbers zero and one, and a
whole number is the same key as an equal floating-point number; the comparison is exact. Keys of one
kind have an order: numbers, texts, bytes, dates, times with a zone, times without one, and tuples
of such. Keys of different kinds have none.
-/

namespace ElementBundle.Data

/-- A number without rounding: a quotient, or what is beyond all quotients. -/
inductive Exact where
  | ratio (num : Int) (den : Nat)
  | infinite (negative : Bool)
  | notANumber
  deriving DecidableEq, Repr

def Exact.ofFloat (x : Float) : Exact :=
  match Decimal.Kind.ofFloat x with
  | .notANumber => .notANumber
  | .infinite negative => .infinite negative
  | .finite negative b =>
    let (num, den) := Decimal.scaleBinary b.mantissa b.exponent
    .ratio (if negative then -num else num) den

def Exact.same : Exact → Exact → Bool
  | .ratio a b, .ratio c d => a * d == c * b
  | .infinite a, .infinite b => a == b
  | .notANumber, .notANumber => true
  | _, _ => false

def Exact.less : Exact → Exact → Bool
  | .ratio a b, .ratio c d => a * d < c * b
  | .infinite a, .infinite b => a && !b
  | .infinite a, .ratio .. => a
  | .ratio .., .infinite b => !b
  | _, _ => false

def Value.exact? : Value → Option Exact
  | .bool b => some (.ratio (if b then 1 else 0) 1)
  | .int n => some (.ratio n 1)
  | .float x => some (.ofFloat x)
  | _ => none

mutual

def Value.same : Value → Value → Bool
  | .null, .null => true
  | .text a, .text b => a == b
  | .stamp a, .stamp b => a.same b
  | .bytes a, .bytes b => a == b
  | .tuple as, .tuple bs | .list as, .list bs => sameItems as bs
  | .mapping as, .mapping bs => as.length == bs.length && sameEntries as bs
  | a, b =>
    match a.exact?, b.exact? with
    | some x, some y => x.same y
    | _, _ => false

def sameItems : List Value → List Value → Bool
  | [], [] => true
  | a :: as, b :: bs => a.same b && sameItems as bs
  | _, _ => false

def sameEntries : List (Value × Value) → List (Value × Value) → Bool
  | [], _ => true
  | (k, v) :: es, fs =>
    (fs.any fun (l, w) => k.same l && v.same w) && sameEntries es fs

end

mutual

def Value.canChange : Value → Bool
  | .list _ | .set _ | .mapping _ | .loop _ => true
  | .tuple items => anyChanges items
  | _ => false

def anyChanges : List Value → Bool
  | [] => false
  | v :: vs => v.canChange || anyChanges vs

end

mutual

/-- Whether a value is less than another one; nothing if they are of different kinds. -/
def Value.less? : Value → Value → Option Bool
  | .text a, .text b => some (decide (a < b))
  | .bytes a, .bytes b => some (decide (a.map UInt8.toNat < b.map UInt8.toNat))
  | .stamp a, .stamp b => if a.rank = b.rank then some (a.instant < b.instant) else none
  | .tuple as, .tuple bs => lessItems? as bs
  | a, b =>
    match a.exact?, b.exact? with
    | some x, some y => some (x.less y)
    | _, _ => none

/-- The first items that are not the same decide, else the lengths. -/
def lessItems? : List Value → List Value → Option Bool
  | a :: as, b :: bs => if a.same b then lessItems? as bs else a.less? b
  | as, bs => some (as.isEmpty && !bs.isEmpty)

end

/-- Values in order, if each two can be compared. A single value always is in order. -/
def sortValues? (vs : List Value) : Option (List Value) :=
  let comparable := vs.length < 2 || go vs
  if comparable then some (vs.mergeSort fun a b => (b.less? a) != some true) else none
where
  /-- Whether each two values can be compared. -/
  go : List Value → Bool
    | [] => true
    | v :: vs => vs.all (fun w => (v.less? w).isSome) && go vs

end ElementBundle.Data
