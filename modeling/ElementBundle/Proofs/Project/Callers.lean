import ElementBundle.Project.Guard

/-! # Callers of the guard

Any number of callers ask one guard for builds, and their steps mix in any order. Only the sections
that hold the lock touch the guard, so a call is cut at them: its entry, the end of its build, and
the section behind that end. A request may come from anyone at any time, also from inside a build or
between the end of a build and the section behind it.

A guard that has been used by any callers in any order is in one of two shapes (`Callers.Sound`), and
`Happens` says everything that can come next. What holds of whole histories follows from it by
induction.
-/

namespace ElementBundle.Project

/-- Where a call in the loop stands. -/
inductive Leg where
  | building
  /-- Its build has ended, and the section behind it comes next. -/
  | built
  /-- Its build has ended by a fault, and the section behind it comes next. -/
  | broken
  deriving DecidableEq, Repr

/-- A guard and the calls in its loop, each by its caller. -/
structure Callers where
  guard : Guard := {}
  inside : List (Nat × Leg) := []
  deriving DecidableEq, Repr

/-- The steps of callers. -/
inductive Act where
  | request (caller : Nat)
  | succeed (caller : Nat)
  | fail (caller : Nat)
  | leave (caller : Nat)
  | release (caller : Nat)
  deriving DecidableEq, Repr

/-- What a step has come to. -/
inductive Occurrence where
  /-- A request has started a build. -/
  | started (caller : Nat)
  /-- A request has been remembered, and its call has returned nothing. -/
  | remembered (caller : Nat)
  | ended (caller : Nat)
  | failed (caller : Nat)
  /-- One more build has started for the requests that were remembered. -/
  | followed (caller : Nat)
  | returned (caller : Nat)
  | raised (caller : Nat)
  deriving DecidableEq, Repr

def Occurrence.build? : Occurrence → Option Nat
  | .started c | .followed c => some c
  | _ => none

def Occurrence.isRequest : Occurrence → Bool
  | .started _ | .remembered _ => true
  | _ => false

def Occurrence.isRemembered : Occurrence → Bool
  | .remembered _ => true
  | _ => false

def Occurrence.isRelease : Occurrence → Bool
  | .returned _ | .raised _ => true
  | _ => false

def Occurrence.isTurn (o : Occurrence) : Bool :=
  o.build?.isSome || o.isRelease

/-- The calls in the loop after one of them has come to another leg. -/
def Callers.moved (s : Callers) (c : Nat) (before after : Leg) : List (Nat × Leg) :=
  (c, after) :: s.inside.erase (c, before)

def Callers.step (s : Callers) : Act → Option (Callers × Occurrence)
  | .request c =>
    match s.guard.request with
    | (guard, true) => some (⟨guard, (c, .building) :: s.inside⟩, .started c)
    | (guard, false) => some (⟨guard, s.inside⟩, .remembered c)
  | .succeed c =>
    if (c, .building) ∈ s.inside then some (⟨s.guard, s.moved c .building .built⟩, .ended c) else none
  | .fail c =>
    if (c, .building) ∈ s.inside then some (⟨s.guard, s.moved c .building .broken⟩, .failed c) else none
  | .leave c =>
    if (c, .built) ∈ s.inside then
      match s.guard.finish with
      | (guard, true) => some (⟨guard, s.moved c .built .building⟩, .followed c)
      | (guard, false) => some (⟨guard, s.inside.erase (c, .built)⟩, .returned c)
    else none
  | .release c =>
    if (c, .broken) ∈ s.inside then some (⟨s.guard.release, s.inside.erase (c, .broken)⟩, .raised c)
    else none

def Callers.run (s : Callers) : List Act → Option (Callers × List Occurrence)
  | [] => some (s, [])
  | a :: acts =>
    match s.step a with
    | none => none
    | some (s, o) => (s.run acts).map fun (s, history) => (s, o :: history)

/-! ## What can happen -/

/-- The guard is idle and nobody is in the loop, or one caller is and the guard knows. -/
inductive Callers.Sound : Callers → Prop
  | idle : Sound {}
  | busy (pending : Bool) (c : Nat) (leg : Leg) : Sound ⟨⟨true, pending⟩, [(c, leg)]⟩

inductive Happens : Callers → Occurrence → Callers → Prop
  | started (c : Nat) : Happens {} (.started c) ⟨⟨true, false⟩, [(c, .building)]⟩
  | remembered (p : Bool) (c : Nat) (leg : Leg) (d : Nat) :
    Happens ⟨⟨true, p⟩, [(c, leg)]⟩ (.remembered d) ⟨⟨true, true⟩, [(c, leg)]⟩
  | ended (p : Bool) (c : Nat) :
    Happens ⟨⟨true, p⟩, [(c, .building)]⟩ (.ended c) ⟨⟨true, p⟩, [(c, .built)]⟩
  | failed (p : Bool) (c : Nat) :
    Happens ⟨⟨true, p⟩, [(c, .building)]⟩ (.failed c) ⟨⟨true, p⟩, [(c, .broken)]⟩
  | followed (c : Nat) :
    Happens ⟨⟨true, true⟩, [(c, .built)]⟩ (.followed c) ⟨⟨true, false⟩, [(c, .building)]⟩
  | returned (c : Nat) : Happens ⟨⟨true, false⟩, [(c, .built)]⟩ (.returned c) {}
  | raised (p : Bool) (c : Nat) : Happens ⟨⟨true, p⟩, [(c, .broken)]⟩ (.raised c) {}

theorem Happens.sound {s s' : Callers} {o : Occurrence} (h : Happens s o s') : s'.Sound := by
  cases h with
  | returned | raised => exact .idle
  | _ => exact .busy ..

theorem happens_of_step {s s' : Callers} {a : Act} {o : Occurrence} (hs : s.Sound)
    (h : s.step a = some (s', o)) : Happens s o s' := by
  cases hs with
  | idle =>
    cases a with
    | request c =>
      simp only [Callers.step, Guard.request, Bool.false_eq_true, if_false, Option.some.injEq,
        Prod.mk.injEq] at h
      obtain ⟨rfl, rfl⟩ := h
      exact .started c
    | _ => simp [Callers.step] at h
  | busy p d leg =>
    cases a with
    | request c =>
      simp only [Callers.step, Guard.request, if_true, Option.some.injEq, Prod.mk.injEq] at h
      obtain ⟨rfl, rfl⟩ := h
      exact .remembered p d leg c
    | succeed c =>
      simp only [Callers.step, Option.ite_none_right_eq_some, List.mem_singleton, Prod.mk.injEq,
        Option.some.injEq] at h
      obtain ⟨⟨rfl, rfl⟩, rfl, rfl⟩ := h
      simpa [Callers.moved] using Happens.ended p c
    | fail c =>
      simp only [Callers.step, Option.ite_none_right_eq_some, List.mem_singleton, Prod.mk.injEq,
        Option.some.injEq] at h
      obtain ⟨⟨rfl, rfl⟩, rfl, rfl⟩ := h
      simpa [Callers.moved] using Happens.failed p c
    | leave c =>
      simp only [Callers.step, Option.ite_none_right_eq_some, List.mem_singleton,
        Prod.mk.injEq] at h
      obtain ⟨⟨rfl, rfl⟩, h⟩ := h
      cases p with
      | true =>
        simp only [Guard.finish, if_true, Option.some.injEq, Prod.mk.injEq] at h
        obtain ⟨rfl, rfl⟩ := h
        simpa [Callers.moved] using Happens.followed c
      | false =>
        simp only [Guard.finish, Bool.false_eq_true, if_false, Option.some.injEq,
          Prod.mk.injEq] at h
        obtain ⟨rfl, rfl⟩ := h
        simpa using Happens.returned c
    | release c =>
      simp only [Callers.step, Option.ite_none_right_eq_some, List.mem_singleton, Prod.mk.injEq,
        Option.some.injEq] at h
      obtain ⟨⟨rfl, rfl⟩, rfl, rfl⟩ := h
      simpa [Guard.release] using Happens.raised p c

/-! ## Histories -/

/-- What can happen in a row. -/
inductive Unfolds : Callers → List Occurrence → Callers → Prop
  | nil (s : Callers) : Unfolds s [] s
  | cons {s m s' : Callers} {o : Occurrence} {os : List Occurrence} :
    Happens s o m → Unfolds m os s' → Unfolds s (o :: os) s'

theorem unfolds_of_run {s s' : Callers} {acts : List Act} {os : List Occurrence} (hs : s.Sound)
    (h : s.run acts = some (s', os)) : Unfolds s os s' := by
  induction acts generalizing s os with
  | nil =>
    simp only [Callers.run, Option.some.injEq, Prod.mk.injEq] at h
    obtain ⟨rfl, rfl⟩ := h
    exact .nil s
  | cons a acts ih =>
    simp only [Callers.run] at h
    split at h
    · cases h
    · rename_i m o hstep
      obtain ⟨⟨s'', os'⟩, hrun, heq⟩ := Option.map_eq_some_iff.1 h
      obtain ⟨rfl, rfl⟩ := Prod.mk.inj heq
      have first := happens_of_step hs hstep
      exact .cons first (ih first.sound hrun)

theorem Unfolds.sound {s s' : Callers} {os : List Occurrence} (h : Unfolds s os s')
    (hs : s.Sound) : s'.Sound := by
  induction h with
  | nil => exact hs
  | cons first _ ih => exact ih first.sound

theorem Unfolds.split {s s' : Callers} {front back : List Occurrence}
    (h : Unfolds s (front ++ back) s') : ∃ m, Unfolds s front m ∧ Unfolds m back s' := by
  induction front generalizing s with
  | nil => exact ⟨s, .nil s, h⟩
  | cons o front ih =>
    cases h with
    | cons first rest =>
      obtain ⟨m, hfront, hback⟩ := ih rest
      exact ⟨m, .cons first hfront, hback⟩

/-- A remembered request pays for the build that follows, so no build starts without a request of
its own. -/
theorem Unfolds.builds_le {s s' : Callers} {os : List Occurrence} (h : Unfolds s os s') :
    os.countP (·.build?.isSome) + s'.guard.pending.toNat ≤
      os.countP (·.isRequest) + s.guard.pending.toNat := by
  induction h with
  | nil => simp
  | cons first _ ih =>
    cases first <;>
      simp only [List.countP_cons, Occurrence.build?, Occurrence.isRequest, Option.isSome_some,
        Option.isSome_none, Bool.toNat_true, Bool.toNat_false, Bool.false_eq_true, if_true,
        if_false] at ih ⊢ <;> omega

/-- A build of a caller runs on until the next turn, and that turn is decided by how the build ends
and by whether a request has been remembered. -/
theorem Unfolds.turn {p : Bool} {c : Nat} {leg : Leg} {s' : Callers} {during after : List Occurrence}
    {stop : Occurrence}
    (h : Unfolds ⟨⟨true, p⟩, [(c, leg)]⟩ (during ++ stop :: after) s')
    (quiet : ∀ o ∈ during, o.isTurn = false) (hstop : stop.isTurn = true) :
    stop = if leg = .broken ∨ .failed c ∈ during then .raised c
      else if p ∨ during.any (·.isRemembered) then .followed c else .returned c := by
  induction during generalizing p leg with
  | nil =>
    cases h with
    | cons first _ => cases first <;> simp_all [Occurrence.isTurn, Occurrence.build?,
        Occurrence.isRelease]
  | cons o during ih =>
    have hquiet := List.forall_mem_cons.1 quiet
    cases h with
    | cons first rest =>
      cases first with
      | remembered _ _ _ d => simpa [Occurrence.isRemembered] using ih rest hquiet.2
      | ended => simpa [Occurrence.isRemembered] using ih rest hquiet.2
      | failed => simpa using ih rest hquiet.2
      | followed | returned | raised =>
        simp [Occurrence.isTurn, Occurrence.build?, Occurrence.isRelease] at hquiet

end ElementBundle.Project
