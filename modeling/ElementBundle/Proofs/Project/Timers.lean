import ElementBundle.Project.Debounce
import Mathlib.Data.List.Induction
import Mathlib.Data.List.Nodup

/-! # Timers on a clock

Here timers are things of their own. The clock keeps every timer that is started and neither stopped
nor run out, and the debouncer only remembers the number of its last one, which it stops before it
starts another. While the clock is on its way, a timer that is due there is run out first; its call
may trigger the debouncer any number of times before the clock goes on.

`Face` is what is left of a clock once it is known that no second timer is ever live, and `Goes` says
everything that can come next. What holds of whole histories follows from it by induction.
-/

namespace ElementBundle.Project

/-- A timer and the time at which it is due. -/
structure Timer where
  number : Nat
  due : Int
  deriving DecidableEq, Repr

/-- What a clock does: nothing, go to a time, or wait on its way there for a call to end. -/
inductive Motion where
  | still
  | toward (target : Int)
  | calling (target : Int)
  deriving DecidableEq, Repr

/-- A clock with the timers that are live, in the order of their starts, and a debouncer with the
number of the timer that it holds. -/
structure Clock where
  delay : Int
  now : Int := 0
  live : List Timer := []
  held : Option Nat := none
  next : Nat := 0
  motion : Motion := .still
  deriving DecidableEq, Repr

/-- What has happened. -/
inductive Mark where
  | triggered (number : Nat) (time : Int)
  | canceled (time : Int)
  /-- The clock sets out for a time, or goes on to it after a call. -/
  | toward (target : Int)
  | fired (number : Nat) (time : Int)
  | arrived (time : Int)
  deriving DecidableEq, Repr

/-- What can be done. -/
inductive Deed where
  | trigger
  | cancel
  | advance (span : Nat)
  | proceed
  deriving DecidableEq, Repr

/-- The timers other than the one that is held. -/
def Clock.others (c : Clock) : List Timer :=
  c.live.filter fun t => c.held ≠ some t.number

def Clock.trigger (c : Clock) : Clock :=
  { c with
    live := c.others ++ [⟨c.next, c.now + c.delay⟩]
    held := some c.next
    next := c.next + 1 }

def Clock.cancel (c : Clock) : Clock :=
  { c with live := c.others, held := none }

/-- The timer that is due first, and not after a time; of two, the one that was started first. -/
def earliest? (target : Int) : List Timer → Option Timer
  | [] => none
  | t :: ts =>
    match earliest? target ts with
    | none => if t.due ≤ target then some t else none
    | some u => if t.due ≤ u.due then some t else some u

/-- One step, if it can be taken. Only a call triggers while the clock is on its way. -/
def Clock.step (c : Clock) : Deed → Option (Clock × Mark)
  | .trigger =>
    match c.motion with
    | .toward _ => none
    | _ => some (c.trigger, .triggered c.next c.now)
  | .cancel =>
    match c.motion with
    | .still => some (c.cancel, .canceled c.now)
    | _ => none
  | .advance span =>
    match c.motion with
    | .still => some ({ c with motion := .toward (c.now + span) }, .toward (c.now + span))
    | _ => none
  | .proceed =>
    match c.motion with
    | .still => none
    | .calling target => some ({ c with motion := .toward target }, .toward target)
    | .toward target =>
      match earliest? target c.live with
      | some t =>
        some ({ c with now := t.due, live := c.live.erase t, held := none, motion := .calling target },
          .fired t.number t.due)
      | none => some ({ c with now := target, motion := .still }, .arrived target)

def Clock.run (c : Clock) : List Deed → Option (Clock × List Mark)
  | [] => some (c, [])
  | a :: deeds =>
    match c.step a with
    | none => none
    | some (c, m) => (c.run deeds).map fun (c, history) => (c, m :: history)

def Mark.isDecision : Mark → Bool
  | .triggered .. | .canceled _ => true
  | _ => false

def Mark.started? : Mark → Option Nat
  | .triggered n _ => some n
  | _ => none

/-- The timer that is run out, and the time of the call. -/
def Mark.fired? : Mark → Option (Nat × Int)
  | .fired n f => some (n, f)
  | _ => none

theorem Mark.fired?_eq_some_iff {o : Mark} {n : Nat} {f : Int} :
    o.fired? = some (n, f) ↔ o = .fired n f := by
  cases o <;> simp [Mark.fired?]

theorem Mark.started?_eq_some_iff {o : Mark} {n : Nat} :
    o.started? = some n ↔ ∃ τ, o = .triggered n τ := by
  cases o <;> simp [Mark.started?]

/-! ## What can happen -/

/-- A clock with at most one live timer, the one that is held. -/
structure Face where
  now : Int := 0
  alarm : Option Timer := none
  next : Nat := 0
  motion : Motion := .still

def Face.clock (d : Int) (s : Face) : Clock :=
  ⟨d, s.now, s.alarm.toList, s.alarm.map (·.number), s.next, s.motion⟩

inductive Goes (d : Int) (s : Face) : Mark → Face → Prop
  | trigger (free : ∀ target, s.motion ≠ .toward target) :
    Goes d s (.triggered s.next s.now)
      { s with alarm := some ⟨s.next, s.now + d⟩, next := s.next + 1 }
  | cancel (still : s.motion = .still) : Goes d s (.canceled s.now) { s with alarm := none }
  | advance (span : Nat) (still : s.motion = .still) :
    Goes d s (.toward (s.now + span)) { s with motion := .toward (s.now + span) }
  | resume {target : Int} (calling : s.motion = .calling target) :
    Goes d s (.toward target) { s with motion := .toward target }
  | fire {target : Int} {t : Timer} (toward : s.motion = .toward target) (alarm : s.alarm = some t)
    (due : t.due ≤ target) :
    Goes d s (.fired t.number t.due)
      { s with now := t.due, alarm := none, motion := .calling target }
  | arrive {target : Int} (toward : s.motion = .toward target)
    (late : ∀ t, s.alarm = some t → target < t.due) :
    Goes d s (.arrived target) { s with now := target, motion := .still }

section Steps

variable {d : Int} {s : Face}

theorem Face.others_clock : (s.clock d).others = [] := by
  cases h : s.alarm with
  | none => simp [Clock.others, Face.clock, h]
  | some t => simp [Clock.others, Face.clock, h]

theorem Face.step_trigger (free : ∀ target, s.motion ≠ .toward target) :
    (s.clock d).step .trigger =
      some (Face.clock d { s with alarm := some ⟨s.next, s.now + d⟩, next := s.next + 1 },
        .triggered s.next s.now) := by
  have hothers : (s.clock d).others = [] := s.others_clock
  cases hmotion : s.motion with
  | toward target => exact absurd hmotion (free target)
  | still | calling =>
    simp only [Clock.step, Clock.trigger, hothers]
    simp [Face.clock, hmotion]

theorem Face.step_cancel (still : s.motion = .still) :
    (s.clock d).step .cancel = some (Face.clock d { s with alarm := none }, .canceled s.now) := by
  have hothers : (s.clock d).others = [] := s.others_clock
  simp only [Clock.step, Clock.cancel, hothers]
  simp [Face.clock, still]

theorem Face.step_advance (still : s.motion = .still) (span : Nat) :
    (s.clock d).step (.advance span) =
      some (Face.clock d { s with motion := .toward (s.now + span) }, .toward (s.now + span)) := by
  simp [Clock.step, Face.clock, still]

theorem Face.step_resume {target : Int} (calling : s.motion = .calling target) :
    (s.clock d).step .proceed =
      some (Face.clock d { s with motion := .toward target }, .toward target) := by
  simp [Clock.step, Face.clock, calling]

theorem Face.step_fire {target : Int} {t : Timer} (toward : s.motion = .toward target)
    (alarm : s.alarm = some t) (due : t.due ≤ target) :
    (s.clock d).step .proceed =
      some (Face.clock d { s with now := t.due, alarm := none, motion := .calling target },
        .fired t.number t.due) := by
  simp [Clock.step, Face.clock, earliest?, toward, alarm, due]

theorem Face.step_arrive {target : Int} (toward : s.motion = .toward target)
    (late : ∀ t, s.alarm = some t → target < t.due) :
    (s.clock d).step .proceed =
      some (Face.clock d { s with now := target, motion := .still }, .arrived target) := by
  cases halarm : s.alarm with
  | none => simp [Clock.step, Face.clock, earliest?, toward, halarm]
  | some t => simp [Clock.step, Face.clock, earliest?, toward, halarm, Int.not_le.2 (late t halarm)]

theorem goes_of_step {a : Deed} {c : Clock} {m : Mark} (h : (s.clock d).step a = some (c, m)) :
    ∃ s', c = s'.clock d ∧ Goes d s m s' := by
  have settle {s' : Face} {o : Mark} (hstep : (s.clock d).step a = some (s'.clock d, o))
      (goes : Goes d s o s') : ∃ s', c = s'.clock d ∧ Goes d s m s' := by
    obtain ⟨rfl, rfl⟩ := Prod.mk.inj (Option.some.inj (h.symm.trans hstep))
    exact ⟨s', rfl, goes⟩
  have hmotion : (s.clock d).motion = s.motion := rfl
  cases a with
  | trigger =>
    by_cases free : ∀ target, s.motion ≠ .toward target
    · exact settle (s.step_trigger free) (.trigger free)
    · obtain ⟨target, htoward⟩ := not_forall_not.1 free
      simp [Clock.step, hmotion, htoward] at h
  | cancel =>
    cases still : s.motion with
    | still => exact settle (s.step_cancel still) (.cancel still)
    | _ => simp [Clock.step, hmotion, still] at h
  | advance span =>
    cases still : s.motion with
    | still => exact settle (s.step_advance still span) (.advance span still)
    | _ => simp [Clock.step, hmotion, still] at h
  | proceed =>
    cases moving : s.motion with
    | still => simp [Clock.step, hmotion, moving] at h
    | calling target => exact settle (s.step_resume moving) (.resume moving)
    | toward target =>
      by_cases late : ∀ t, s.alarm = some t → target < t.due
      · exact settle (s.step_arrive moving late) (.arrive moving late)
      · simp only [not_forall, Int.not_lt] at late
        obtain ⟨t, alarm, due⟩ := late
        exact settle (s.step_fire moving alarm due) (.fire moving alarm due)

theorem Goes.of_triggered {s' : Face} {n : Nat} {τ : Int} (h : Goes d s (.triggered n τ) s') :
    n = s.next ∧ s' = { s with alarm := some ⟨n, τ + d⟩, next := n + 1 } := by
  generalize hmark : Mark.triggered n τ = mark at h
  cases h with
  | trigger =>
    cases hmark
    exact ⟨rfl, rfl⟩
  | _ => cases hmark

theorem Goes.of_toward {s' : Face} {target : Int} (h : Goes d s (.toward target) s') :
    s' = { s with motion := .toward target } := by
  generalize hmark : Mark.toward target = mark at h
  cases h with
  | advance | resume =>
    cases hmark
    rfl
  | _ => cases hmark

theorem Goes.of_fired {s' : Face} {n : Nat} {f : Int} (h : Goes d s (.fired n f) s') :
    s.alarm = some ⟨n, f⟩ ∧ ∃ target, s.motion = .toward target ∧ f ≤ target := by
  generalize hmark : Mark.fired n f = mark at h
  cases h with
  | fire toward alarm due =>
    cases hmark
    exact ⟨alarm, _, toward, due⟩
  | _ => cases hmark

/-- What a clock on its way does next is to run out the timer that is due there. -/
theorem Goes.fires {s' : Face} {o : Mark} {target : Int} {t : Timer} (h : Goes d s o s')
    (toward : s.motion = .toward target) (alarm : s.alarm = some t) (due : t.due ≤ target) :
    o = .fired t.number t.due := by
  cases h with
  | trigger free => exact absurd toward (free target)
  | cancel still | advance _ still | resume still =>
    rw [toward] at still
    cases still
  | arrive there late =>
    obtain rfl := Motion.toward.inj (there.symm.trans toward)
    have := late t alarm
    omega
  | fire _ fired =>
    obtain rfl := Option.some.inj (fired.symm.trans alarm)
    rfl

end Steps

/-- What can happen in a row. -/
inductive Passes (d : Int) : Face → List Mark → Face → Prop
  | nil (s : Face) : Passes d s [] s
  | cons {s m s' : Face} {o : Mark} {os : List Mark} :
    Goes d s o m → Passes d m os s' → Passes d s (o :: os) s'

theorem passes_of_run {d : Int} {s : Face} {deeds : List Deed} {c : Clock} {os : List Mark}
    (h : (s.clock d).run deeds = some (c, os)) : ∃ s', c = s'.clock d ∧ Passes d s os s' := by
  induction deeds generalizing s os with
  | nil =>
    simp only [Clock.run, Option.some.injEq, Prod.mk.injEq] at h
    obtain ⟨rfl, rfl⟩ := h
    exact ⟨s, rfl, .nil s⟩
  | cons a deeds ih =>
    simp only [Clock.run] at h
    split at h
    · cases h
    · rename_i c₁ o hstep
      obtain ⟨⟨c', os'⟩, hrun, heq⟩ := Option.map_eq_some_iff.1 h
      obtain ⟨rfl, rfl⟩ := Prod.mk.inj heq
      obtain ⟨m, rfl, first⟩ := goes_of_step hstep
      obtain ⟨s', hs', rest⟩ := ih hrun
      exact ⟨s', hs', .cons first rest⟩

theorem Passes.split {d : Int} {s s' : Face} {front back : List Mark}
    (h : Passes d s (front ++ back) s') : ∃ m, Passes d s front m ∧ Passes d m back s' := by
  induction front generalizing s with
  | nil => exact ⟨s, .nil s, h⟩
  | cons o front ih =>
    cases h with
    | cons first rest =>
      obtain ⟨m, hfront, hback⟩ := ih rest
      exact ⟨m, .cons first hfront, hback⟩

/-- The end of a history: the state before its last mark, and the step. -/
theorem Passes.last {d : Int} {s s' : Face} {front : List Mark} {o : Mark}
    (h : Passes d s (front ++ [o]) s') : ∃ m, Passes d s front m ∧ Goes d m o s' := by
  obtain ⟨m, hfront, hlast⟩ := h.split
  cases hlast with
  | cons last rest =>
    cases rest
    exact ⟨m, hfront, last⟩

/-! ## The state of the clock -/

/-- No timer is overdue, and the clock is not beyond the time that it goes to. -/
structure Face.Sound (s : Face) : Prop where
  known : ∀ t, s.alarm = some t → t.number < s.next
  ahead : ∀ t, s.alarm = some t → s.now ≤ t.due
  toward : ∀ target, s.motion = .toward target → s.now ≤ target
  calling : ∀ target, s.motion = .calling target → s.now ≤ target

theorem Goes.sound {d : Int} {s s' : Face} {o : Mark} (h : Goes d s o s') (hd : 0 ≤ d)
    (hs : s.Sound) : s'.Sound ∧ s.now ≤ s'.now := by
  cases h with
  | trigger free =>
    refine ⟨⟨?_, ?_, hs.toward, hs.calling⟩, Int.le_refl _⟩
    · rintro t ⟨⟩
      exact Nat.lt_succ_self s.next
    · rintro t ⟨⟩
      dsimp only
      omega
  | cancel still => exact ⟨⟨nofun, nofun, hs.toward, hs.calling⟩, Int.le_refl _⟩
  | advance span still =>
    refine ⟨⟨hs.known, hs.ahead, ?_, nofun⟩, Int.le_refl _⟩
    rintro target ⟨⟩
    dsimp only
    omega
  | resume calling =>
    refine ⟨⟨hs.known, hs.ahead, ?_, nofun⟩, Int.le_refl _⟩
    rintro target ⟨⟩
    exact hs.calling _ calling
  | fire toward alarm due =>
    refine ⟨⟨nofun, nofun, nofun, ?_⟩, hs.ahead _ alarm⟩
    rintro target ⟨⟩
    exact due
  | arrive toward late =>
    exact ⟨⟨hs.known, fun t ht => Int.le_of_lt (late t ht), nofun, nofun⟩, hs.toward _ toward⟩

theorem Passes.sound {d : Int} {s s' : Face} {os : List Mark} (h : Passes d s os s') (hd : 0 ≤ d)
    (hs : s.Sound) : s'.Sound := by
  induction h with
  | nil => exact hs
  | cons first _ ih => exact ih (first.sound hd hs).1

theorem Face.sound_start : Face.Sound {} :=
  ⟨nofun, nofun, nofun, nofun⟩

/-! ## Calls -/

/-- The clock never goes back, so calls come in the order of their times. -/
theorem Passes.pairwise_fired {d : Int} {s s' : Face} {os : List Mark} (h : Passes d s os s')
    (hd : 0 ≤ d) (hs : s.Sound) :
    ((os.filterMap (·.fired?)).map (·.2)).Pairwise (· ≤ ·) ∧
      ∀ f ∈ (os.filterMap (·.fired?)).map (·.2), s.now ≤ f := by
  induction h with
  | nil => simp
  | @cons s m s' o os first _ ih =>
    obtain ⟨hm, hnow⟩ := first.sound hd hs
    obtain ⟨hsorted, hafter⟩ := ih hm
    have hlater : ∀ f ∈ (os.filterMap (·.fired?)).map (·.2), s.now ≤ f :=
      fun f hf => Int.le_trans hnow (hafter f hf)
    cases first with
    | @fire target t toward alarm due =>
      simp only [List.filterMap_cons, Mark.fired?, List.map_cons, List.pairwise_cons,
        List.forall_mem_cons]
      exact ⟨⟨hafter, hsorted⟩, hnow, hlater⟩
    | _ => exact ⟨hsorted, hlater⟩

/-- A timer that has been started and is no longer live is never run out. -/
theorem Passes.not_fired_of_dead {d : Int} {s s' : Face} {os : List Mark} (h : Passes d s os s')
    {n : Nat} (known : n < s.next) (dead : ∀ t, s.alarm = some t → t.number ≠ n) (f : Int) :
    .fired n f ∉ os := by
  induction h with
  | nil => simp
  | cons first _ ih =>
    cases first with
    | trigger =>
      simp only [List.mem_cons, reduceCtorEq, false_or]
      refine ih (by dsimp only; omega) ?_
      rintro t ⟨⟩
      dsimp only
      omega
    | cancel =>
      simp only [List.mem_cons, reduceCtorEq, false_or]
      exact ih known nofun
    | advance | resume | arrive =>
      simp only [List.mem_cons, reduceCtorEq, false_or]
      exact ih known dead
    | fire toward alarm due =>
      simp only [List.mem_cons, Mark.fired.injEq, not_or, not_and]
      exact ⟨fun hn => absurd hn.symm (dead _ alarm), ih known nofun⟩

theorem Passes.nodup_fired {d : Int} {s s' : Face} {os : List Mark} (h : Passes d s os s')
    (hd : 0 ≤ d) (hs : s.Sound) : ((os.filterMap (·.fired?)).map (·.1)).Nodup := by
  induction h with
  | nil => simp
  | @cons s m s' o os first rest ih =>
    have hrest := ih (first.sound hd hs).1
    cases first with
    | @fire target t toward alarm due =>
      simp only [List.filterMap_cons, Mark.fired?, List.map_cons, List.nodup_cons]
      refine ⟨?_, hrest⟩
      intro hmem
      obtain ⟨⟨n, f⟩, hfired, hn⟩ := List.mem_map.1 hmem
      obtain ⟨o, ho, hof⟩ := List.mem_filterMap.1 hfired
      obtain rfl := Mark.fired?_eq_some_iff.1 hof
      obtain rfl : n = t.number := hn
      exact rest.not_fired_of_dead (hs.known t alarm) nofun f ho
    | _ => exact hrest

theorem Passes.fired_unique {d : Int} {s s' : Face} {os : List Mark} (h : Passes d s os s')
    (hd : 0 ≤ d) (hs : s.Sound) {n : Nat} {f g : Int} (hf : .fired n f ∈ os)
    (hg : .fired n g ∈ os) : f = g := by
  have hmem {t : Int} (ht : .fired n t ∈ os) : (n, t) ∈ os.filterMap (·.fired?) :=
    List.mem_filterMap.2 ⟨_, ht, rfl⟩
  have hsame := List.inj_on_of_nodup_map (h.nodup_fired hd hs) (hmem hf) (hmem hg) rfl
  exact congrArg Prod.snd hsame

theorem Passes.pairwise_started {d : Int} {s s' : Face} {os : List Mark} (h : Passes d s os s') :
    (os.filterMap (·.started?)).Pairwise (· < ·) ∧ ∀ n ∈ os.filterMap (·.started?), s.next ≤ n := by
  induction h with
  | nil => simp
  | cons first _ ih =>
    cases first with
    | trigger =>
      simp only [List.filterMap_cons, Mark.started?, List.pairwise_cons, List.forall_mem_cons]
      refine ⟨⟨fun n hn => ih.2 n hn, ih.1⟩, Nat.le_refl _, fun n hn => ?_⟩
      have := ih.2 n hn
      dsimp only at this
      omega
    | _ => exact ih

theorem Passes.next_le {d : Int} {s s' : Face} {os : List Mark} (h : Passes d s os s') :
    s.next ≤ s'.next := by
  induction h with
  | nil => exact Nat.le_refl _
  | cons first _ ih =>
    cases first with
    | trigger => exact Nat.le_of_succ_le ih
    | _ => exact ih

theorem Passes.fired_lt {d : Int} {s s' : Face} {os : List Mark} (h : Passes d s os s')
    (hd : 0 ≤ d) (hs : s.Sound) {n : Nat} {f : Int} (hf : .fired n f ∈ os) : n < s'.next := by
  obtain ⟨front, back, rfl⟩ := List.append_of_mem hf
  obtain ⟨m, hfront, hback⟩ := h.split
  have hnext := hback.next_le
  cases hback with
  | cons first _ =>
    have hlt : n < m.next := (hfront.sound hd hs).known _ first.of_fired.1
    omega

end ElementBundle.Project
