/-!
# Debouncing

A burst of triggers becomes one call: each trigger puts the call off to a delay after itself. The
clock counts milliseconds and moves only by `advance`.
-/

namespace ElementBundle.Project

/-- A debouncer: its delay, and the time at which the call is due, if one is pending. -/
structure Debouncer where
  delay : Int
  due : Option Int := none
  deriving DecidableEq, Repr

def Debouncer.trigger (d : Debouncer) (now : Int) : Debouncer :=
  { d with due := some (now + d.delay) }

def Debouncer.cancel (d : Debouncer) : Debouncer :=
  { d with due := none }

def Debouncer.pending (d : Debouncer) : Bool :=
  d.due.isSome

def Debouncer.fire? (d : Debouncer) (now : Int) : Option (Int × Debouncer) :=
  match d.due with
  | some due => if due ≤ now then some (due, d.cancel) else none
  | none => none

/-- A debouncer on its clock whose call triggers it again a number of times. -/
structure DebounceRun where
  debouncer : Debouncer
  now : Int := 0
  retriggers : Nat := 0
  fired : List Int := []
  deriving DecidableEq, Repr

/-- Fires what is due until a time. The first argument counts the calls that still trigger again. -/
def DebounceRun.fireUntil (target : Int) : Nat → DebounceRun → DebounceRun
  | n, r =>
    match r.debouncer.fire? target with
    | none => { r with retriggers := n }
    | some (due, d) =>
      let r := { r with debouncer := d, now := due, fired := r.fired ++ [due] }
      match n with
      | 0 => { r with retriggers := 0 }
      | n + 1 => fireUntil target n { r with debouncer := d.trigger due }

inductive DebounceStep where
  | trigger
  | cancel
  | advance (span : Int)
  deriving DecidableEq, Repr

def DebounceRun.step (r : DebounceRun) : DebounceStep → DebounceRun
  | .trigger => { r with debouncer := r.debouncer.trigger r.now }
  | .cancel => { r with debouncer := r.debouncer.cancel }
  | .advance span =>
    let target := r.now + span
    { fireUntil target r.retriggers r with now := target }

def DebounceRun.trace (r : DebounceRun) : List DebounceStep → List DebounceRun
  | [] => []
  | s :: steps => r.step s :: (r.step s).trace steps

end ElementBundle.Project
