import ElementBundle.Proofs.Project.Timers

/-! # Debouncing

A call comes a delay after a trigger exactly if the clock is sent there before anything else is
decided. Everything is read off histories of the clock, where timers are numbered; the debouncer that
runs, which keeps a due time and no timers, is then tied to them step by step.
-/

namespace ElementBundle.Project

/-! ## Calls and triggers -/

section Histories

variable {d : Int} {s s' : Face} {os : List Mark}

/-- A live timer comes from the last decision, which is its trigger. -/
theorem Passes.exists_trigger {t : Timer} (h : Passes d {} os s) (alarm : s.alarm = some t) :
    ∃ before during, os = before ++ .triggered t.number (t.due - d) :: during ∧
      ∀ o ∈ during, o.isDecision = false := by
  induction os using List.reverseRecOn generalizing s with
  | nil =>
    cases h
    cases alarm
  | append_singleton front o ih =>
    obtain ⟨m, hfront, last⟩ := h.last
    have extend (kept : m.alarm = some t) (quiet : o.isDecision = false) :
        ∃ before during, front ++ [o] = before ++ .triggered t.number (t.due - d) :: during ∧
          ∀ o ∈ during, o.isDecision = false := by
      obtain ⟨before, during, rfl, hquiet⟩ := ih hfront kept
      refine ⟨before, during ++ [o], by simp, ?_⟩
      intro x hx
      rcases List.mem_append.1 hx with hx | hx
      · exact hquiet x hx
      · rwa [List.mem_singleton.1 hx]
    cases last with
    | trigger free =>
      cases alarm
      refine ⟨front, [], ?_, nofun⟩
      rw [Int.add_sub_cancel]
    | cancel | fire => cases alarm
    | advance | resume | arrive => exact extend alarm rfl

theorem Passes.exists_toward {target : Int} (h : Passes d {} os s)
    (toward : s.motion = .toward target) :
    ∃ front m, os = front ++ [.toward target] ∧ Passes d {} front m ∧ m.alarm = s.alarm := by
  rcases List.eq_nil_or_concat os with rfl | ⟨front, o, rfl⟩
  · cases h
    cases toward
  · rw [List.concat_eq_append] at h ⊢
    obtain ⟨m, hfront, last⟩ := h.last
    cases last with
    | trigger free => exact absurd toward (free target)
    | cancel still =>
      rw [still] at toward
      cases toward
    | advance | resume =>
      cases toward
      exact ⟨front, m, rfl, hfront, rfl⟩
    | fire | arrive => cases toward

/-- A timer stays live until it is run out or something is decided. -/
theorem Passes.alarm_stays {t : Timer} (h : Passes d s os s') (alarm : s.alarm = some t)
    (quiet : ∀ o ∈ os, o.isDecision = false) : .fired t.number t.due ∈ os ∨ s'.alarm = some t := by
  induction h with
  | nil => exact .inr alarm
  | cons first _ ih =>
    obtain ⟨hfirst, hrest⟩ := List.forall_mem_cons.1 quiet
    cases first with
    | trigger | cancel => cases hfirst
    | advance | resume | arrive => exact (ih alarm hrest).imp_left (List.mem_cons_of_mem _)
    | fire _ fired =>
      obtain rfl := Option.some.inj (fired.symm.trans alarm)
      exact .inl List.mem_cons_self

/-- A clock that sets out for a time at which a timer is due does not get there before the call. -/
theorem Passes.fires_next {t : Timer} {target : Int} (h : Passes d s (.toward target :: os) s')
    (alarm : s.alarm = some t) (due : t.due ≤ target) (still : s'.motion = .still) :
    .fired t.number t.due ∈ os := by
  cases h with
  | cons first rest =>
    obtain rfl := first.of_toward
    cases rest with
    | nil => cases still
    | cons next _ =>
      rw [next.fires rfl alarm due]
      exact List.mem_cons_self

end Histories

/-- A timer is started a delay before a time, and the clock sets out for that time or a later one
with nothing decided in between. -/
def Survives (d : Int) (n : Nat) (f : Int) (history : List Mark) : Prop :=
  ∃ before during target after,
    history = before ++ .triggered n (f - d) :: (during ++ .toward target :: after) ∧
      (∀ o ∈ during, o.isDecision = false) ∧ f ≤ target

theorem Passes.survives_of_fired {d : Int} {s : Face} {os : List Mark} {n : Nat} {f : Int}
    (h : Passes d {} os s) (hf : .fired n f ∈ os) : Survives d n f os := by
  obtain ⟨front, back, rfl⟩ := List.append_of_mem hf
  obtain ⟨m, hfront, hback⟩ := h.split
  cases hback with
  | cons first _ =>
    obtain ⟨alarm, target, toward, due⟩ := first.of_fired
    obtain ⟨way, p, rfl, hway, hp⟩ := hfront.exists_toward toward
    obtain ⟨before, during, rfl, quiet⟩ := hway.exists_trigger (hp.trans alarm)
    exact ⟨before, during, target, .fired n f :: back, by simp, quiet, due⟩

theorem Passes.fired_of_survives {d : Int} {s : Face} {os : List Mark} {n : Nat} {f : Int}
    (h : Passes d {} os s) (still : s.motion = .still) (hs : Survives d n f os) :
    .fired n f ∈ os := by
  obtain ⟨before, during, target, after, rfl, quiet, due⟩ := hs
  obtain ⟨m, _, hrest⟩ := h.split
  cases hrest with
  | cons first rest =>
    obtain ⟨rfl, rfl⟩ := first.of_triggered
    obtain ⟨p, hduring, hafter⟩ := rest.split
    rw [Int.sub_add_cancel] at hduring
    rcases hduring.alarm_stays rfl quiet with hfired | alarm
    · simp [hfired]
    · simp [hafter.fires_next alarm due still]

/-- A trigger that is followed by another one before any call leads to none. -/
theorem Passes.not_fired_of_replaced {d : Int} {s : Face} {before during after : List Mark}
    {n k : Nat} {τ υ : Int} (hd : 0 ≤ d)
    (h : Passes d {} (before ++ .triggered k υ :: (during ++ .triggered n τ :: after)) s)
    (silent : ∀ o ∈ during, o.fired? = none) (f : Int) :
    .fired k f ∉ before ++ .triggered k υ :: (during ++ .triggered n τ :: after) := by
  obtain ⟨m, hbefore, hrest⟩ := h.split
  cases hrest with
  | cons first rest =>
    obtain ⟨rfl, rfl⟩ := first.of_triggered
    obtain ⟨p, hduring, hafter⟩ := rest.split
    have hnext := hduring.next_le
    cases hafter with
    | cons second tail =>
      obtain ⟨rfl, rfl⟩ := second.of_triggered
      have early : .fired m.next f ∉ before := fun hf =>
        Nat.lt_irrefl _ (hbefore.fired_lt hd Face.sound_start hf)
      have middle : .fired m.next f ∉ during := fun hf => by
        have := silent _ hf
        cases this
      have late : .fired m.next f ∉ after := by
        apply tail.not_fired_of_dead
        · exact Nat.lt_succ_of_lt hnext
        · rintro t ⟨⟩
          exact Nat.ne_of_gt hnext
      simp [early, middle, late]

/-- What a history of a debouncer with a delay is like. -/
structure Debounced (d : Int) (c : Clock) (history : List Mark) : Prop where
  single : c.live.length ≤ 1
  pending : c.held.isSome ↔ c.live ≠ []
  fires : c.motion = .still → ∀ n f, .fired n f ∈ history ↔ Survives d n f history
  started_once : (history.filterMap (·.started?)).Nodup
  fired_once : ((history.filterMap (·.fired?)).map (·.1)).Nodup
  ordered : ((history.filterMap (·.fired?)).map (·.2)).Pairwise (· ≤ ·)
  /-- Of triggers with no call among them only the last one leads to a call. -/
  burst : c.motion = .still → ∀ before front n τ during target after,
    history = before ++ (front ++ .triggered n τ :: (during ++ .toward target :: after)) →
    (∀ o ∈ front, o.fired? = none) → (∀ o ∈ during, o.isDecision = false) → τ + d ≤ target →
    (∀ k ∈ front.filterMap (·.started?), ∀ f, .fired k f ∉ history) ∧
      ∀ f, .fired n f ∈ history ↔ f = τ + d

theorem Passes.debounced {d : Int} {s : Face} {os : List Mark} (h : Passes d {} os s) (hd : 0 ≤ d) :
    Debounced d (s.clock d) os where
  single := by cases halarm : s.alarm <;> simp [Face.clock, halarm]
  pending := by cases halarm : s.alarm <;> simp [Face.clock, halarm]
  fires still n f := ⟨h.survives_of_fired, h.fired_of_survives still⟩
  started_once := h.pairwise_started.1.imp Nat.ne_of_lt
  fired_once := h.nodup_fired hd Face.sound_start
  ordered := (h.pairwise_fired hd Face.sound_start).1
  burst := by
    rintro still before front n τ during target after rfl silent quiet due
    have hlast : .fired n (τ + d) ∈
        before ++ (front ++ .triggered n τ :: (during ++ .toward target :: after)) := by
      apply h.fired_of_survives still
      refine ⟨before ++ front, during, target, after, ?_, quiet, due⟩
      rw [Int.add_sub_cancel, List.append_assoc]
    refine ⟨fun k hk f => ?_, fun f => ⟨fun hf => ?_, fun hf => hf ▸ hlast⟩⟩
    · obtain ⟨o, ho, hok⟩ := List.mem_filterMap.1 hk
      obtain ⟨υ, rfl⟩ := Mark.started?_eq_some_iff.1 hok
      obtain ⟨left, right, rfl⟩ := List.append_of_mem ho
      have hsilent : ∀ o ∈ right, o.fired? = none := fun o ho => silent o (by simp [ho])
      have := @Passes.not_fired_of_replaced d s (before ++ left) right
        (during ++ .toward target :: after) n k τ υ hd (by simpa using h) hsilent f
      simpa using this
    · exact h.fired_unique hd Face.sound_start hf hlast

/-! ## The debouncer that runs -/

/-- What a step of a debouncer comes to on the clock: while the clock is on its way, calls trigger. -/
def DebounceStep.Leads : DebounceStep → List Deed → Prop
  | .trigger, deeds => deeds = [.trigger]
  | .cancel, deeds => deeds = [.cancel]
  | .advance span, deeds => ∃ way, deeds = .advance span.toNat :: (way ++ [.proceed]) ∧
    ∀ a ∈ way, a = .trigger ∨ a = .proceed

/-- A debouncer shows what a clock and its history are. -/
structure DebounceRun.Shows (r : DebounceRun) (c : Clock) (history : List Mark) : Prop where
  still : c.motion = .still
  now : c.now = r.now
  due : c.live.map (·.due) = r.debouncer.due.toList
  pending : c.held.isSome = r.debouncer.pending
  fired : (history.filterMap (·.fired?)).map (·.2) = r.fired

/-- The debouncer and the clock agree on what is due. -/
structure Debouncer.Agrees (d : Int) (b : Debouncer) (s : Face) : Prop where
  delay : b.delay = d
  due : b.due = s.alarm.map (·.due)

theorem Clock.run_cons {c m c' : Clock} {a : Deed} {o : Mark} {deeds : List Deed} {os : List Mark}
    (first : c.step a = some (m, o)) (rest : m.run deeds = some (c', os)) :
    c.run (a :: deeds) = some (c', o :: os) := by
  simp [Clock.run, first, rest]

theorem Clock.run_append {c m c' : Clock} {deeds more : List Deed} {os later : List Mark}
    (first : c.run deeds = some (m, os)) (rest : m.run more = some (c', later)) :
    c.run (deeds ++ more) = some (c', os ++ later) := by
  induction deeds generalizing c os with
  | nil =>
    simp only [Clock.run, Option.some.injEq, Prod.mk.injEq] at first
    obtain ⟨rfl, rfl⟩ := first
    exact rest
  | cons a deeds ih =>
    simp only [Clock.run] at first
    split at first
    · cases first
    · rename_i p o hstep
      obtain ⟨⟨q, os'⟩, hrun, heq⟩ := Option.map_eq_some_iff.1 first
      obtain ⟨rfl, rfl⟩ := Prod.mk.inj heq
      exact Clock.run_cons hstep (ih hrun)

section Follow

variable {d : Int} {s : Face} {r : DebounceRun}

theorem Debouncer.Agrees.late_of_fire? {b : Debouncer} {target : Int} (agrees : b.Agrees d s)
    (h : b.fire? target = none) : ∀ t, s.alarm = some t → target < t.due := by
  intro t alarm
  simpa [Debouncer.fire?, agrees.due, alarm] using h

theorem Debouncer.Agrees.exists_of_fire? {b b' : Debouncer} {target due : Int}
    (agrees : b.Agrees d s) (h : b.fire? target = some (due, b')) :
    ∃ t, s.alarm = some t ∧ t.due = due ∧ due ≤ target ∧ b' = b.cancel := by
  cases alarm : s.alarm with
  | none => simp [Debouncer.fire?, agrees.due, alarm] at h
  | some t =>
    simp only [Debouncer.fire?, agrees.due, alarm, Option.map_some, Option.ite_none_right_eq_some,
      Option.some.injEq, Prod.mk.injEq] at h
    obtain ⟨hdue, rfl, rfl⟩ := h
    exact ⟨t, rfl, rfl, hdue, rfl⟩

/-- Deeds on a clock that is on its way, the last of which brings it there, and what firing until
then comes to. -/
def Arrives (d target : Int) (s : Face) (fired : List Int) (r : DebounceRun) : Prop :=
  ∃ way s' os, (∀ a ∈ way, a = .trigger ∨ a = .proceed) ∧
    (s.clock d).run (way ++ [.proceed]) = some (s'.clock d, os) ∧ s'.motion = .still ∧
    s'.now = target ∧ r.debouncer.Agrees d s' ∧
    r.fired = fired ++ (os.filterMap (·.fired?)).map (·.2)

theorem Arrives.cons {target : Int} {s₁ : Face} {a : Deed} {o : Mark} {fired : List Int}
    (rest : Arrives d target s₁ (fired ++ (o.fired?.map (·.2)).toList) r)
    (ha : a = .trigger ∨ a = .proceed) (first : (s.clock d).step a = some (s₁.clock d, o)) :
    Arrives d target s fired r := by
  obtain ⟨way, s', os, hway, hrun, still, hnow, agrees, hfired⟩ := rest
  refine ⟨a :: way, s', o :: os, ?_, Clock.run_cons first hrun, still, hnow, agrees, ?_⟩
  · exact List.forall_mem_cons.2 ⟨ha, hway⟩
  · rw [hfired]
    cases ho : o.fired? <;> simp [ho]

theorem arrives_of_late {target : Int} (toward : s.motion = .toward target)
    (agrees : r.debouncer.Agrees d s) (late : ∀ t, s.alarm = some t → target < t.due) :
    Arrives d target s r.fired r := by
  refine ⟨[], _, _, nofun, Clock.run_cons (s.step_arrive toward late) rfl, rfl, rfl, ?_, ?_⟩
  · exact ⟨agrees.delay, agrees.due⟩
  · simp [Mark.fired?]

/-- Firing what is due until a time is the way of the clock to that time. -/
theorem arrives_fireUntil {target : Int} (n : Nat) (toward : s.motion = .toward target)
    (agrees : r.debouncer.Agrees d s) :
    Arrives d target s r.fired (DebounceRun.fireUntil target n r) := by
  fun_induction DebounceRun.fireUntil target n r generalizing s with
  | case1 n r hfire => exact arrives_of_late toward agrees (agrees.late_of_fire? hfire)
  | case2 r due b hfire =>
    obtain ⟨t, alarm, rfl, due, rfl⟩ := agrees.exists_of_fire? hfire
    apply Arrives.cons _ (.inr rfl) (s.step_fire toward alarm due)
    apply Arrives.cons _ (.inr rfl) (Face.step_resume rfl)
    simp only [Mark.fired?, Option.map_none, Option.toList_none, List.append_nil]
    exact arrives_of_late rfl ⟨agrees.delay, rfl⟩ fun t' halarm => by cases halarm
  | case3 r due b hfire r₁ n =>
    rename_i ih
    obtain ⟨t, alarm, rfl, due, rfl⟩ := agrees.exists_of_fire? hfire
    apply Arrives.cons _ (.inr rfl) (s.step_fire toward alarm due)
    apply Arrives.cons _ (.inl rfl) (Face.step_trigger (by simp))
    apply Arrives.cons _ (.inr rfl) (Face.step_resume rfl)
    simp only [Mark.fired?, Option.map_none, Option.toList_none, List.append_nil]
    apply ih rfl
    exact ⟨agrees.delay, congrArg (fun x => some (t.due + x)) agrees.delay⟩

/-- A debouncer stands where a clock does. -/
structure DebounceRun.Matches (d : Int) (r : DebounceRun) (s : Face) : Prop where
  still : s.motion = .still
  now : s.now = r.now
  agrees : r.debouncer.Agrees d s

theorem DebounceRun.Matches.step (h : r.Matches d s) (step : DebounceStep)
    (forward : ∀ span, step = .advance span → 0 ≤ span) :
    ∃ deeds s' os, step.Leads deeds ∧ (s.clock d).run deeds = some (s'.clock d, os) ∧
      (r.step step).Matches d s' ∧
      (r.step step).fired = r.fired ++ (os.filterMap (·.fired?)).map (·.2) := by
  obtain ⟨still, hnow, hdelay, hdue⟩ := h
  cases step with
  | trigger =>
    have free : ∀ target, s.motion ≠ .toward target := by simp [still]
    refine ⟨[.trigger], _, _, rfl, Clock.run_cons (s.step_trigger free) rfl, ?_, ?_⟩
    · refine ⟨still, hnow, hdelay, ?_⟩
      simp [DebounceRun.step, Debouncer.trigger, hnow, hdelay]
    · simp [DebounceRun.step, Mark.fired?]
  | cancel =>
    refine ⟨[.cancel], _, _, rfl, Clock.run_cons (s.step_cancel still) rfl, ?_, ?_⟩
    · exact ⟨still, hnow, hdelay, rfl⟩
    · simp [DebounceRun.step, Mark.fired?]
  | advance span =>
    have htarget : s.now + span.toNat = r.now + span := by
      have := forward span rfl
      omega
    have first := s.step_advance (d := d) still span.toNat
    rw [htarget] at first
    obtain ⟨way, s', os, hway, hrun, hstill, hthere, hagrees, hfired⟩ :=
      @arrives_fireUntil d { s with motion := .toward (r.now + span) } r _ r.retriggers rfl
        ⟨hdelay, hdue⟩
    refine ⟨_, s', _, ⟨way, rfl, hway⟩, Clock.run_cons first hrun, ?_, ?_⟩
    · exact ⟨hstill, hthere, hagrees⟩
    · simpa [DebounceRun.step, Mark.fired?] using hfired

theorem DebounceRun.Matches.steps (h : r.Matches d s) (steps : List DebounceStep)
    (forward : ∀ span, .advance span ∈ steps → 0 ≤ span) :
    ∃ ways s' os, List.Forall₂ DebounceStep.Leads steps ways ∧
      (s.clock d).run ways.flatten = some (s'.clock d, os) ∧
      (steps.foldl DebounceRun.step r).Matches d s' ∧
      (steps.foldl DebounceRun.step r).fired = r.fired ++ (os.filterMap (·.fired?)).map (·.2) := by
  induction steps generalizing r s with
  | nil => exact ⟨[], s, [], .nil, rfl, h, by simp⟩
  | cons step steps ih =>
    obtain ⟨deeds, m, os, hleads, hrun, hm, hfired⟩ :=
      h.step step fun span hspan => forward span (hspan ▸ List.mem_cons_self)
    obtain ⟨ways, s', later, hways, hrest, hs', hlater⟩ :=
      ih hm fun span hspan => forward span (List.mem_cons_of_mem _ hspan)
    refine ⟨deeds :: ways, s', os ++ later, .cons hleads hways, Clock.run_append hrun hrest, hs', ?_⟩
    rw [List.foldl_cons, hlater, hfired]
    simp

theorem DebounceRun.Matches.shows {os : List Mark} (h : r.Matches d s)
    (fired : (os.filterMap (·.fired?)).map (·.2) = r.fired) : r.Shows (s.clock d) os := by
  refine ⟨h.still, h.now, ?_, ?_, fired⟩
  · rw [h.agrees.due]
    cases halarm : s.alarm <;> simp [Face.clock, halarm]
  · simp [Debouncer.pending, h.agrees.due, Face.clock]

theorem getElem?_trace (r : DebounceRun) (steps : List DebounceStep) (i : Nat) :
    (r.trace steps)[i]? =
      if i < steps.length then some ((steps.take (i + 1)).foldl DebounceRun.step r) else none := by
  induction steps generalizing r i with
  | nil => simp [DebounceRun.trace]
  | cons step steps ih =>
    cases i with
    | zero => simp [DebounceRun.trace]
    | succ i => simp [DebounceRun.trace, ih]

end Follow

/-- Every history of the clock is debounced, and the debouncer that runs shows such histories. -/
theorem run_debounced {d : Int} (hd : 0 ≤ d) :
    (∀ deeds c history, Clock.run { delay := d } deeds = some (c, history) →
      Debounced d c history) ∧
    ∀ (retriggers : Nat) (steps : List DebounceStep) (i : Nat) (r : DebounceRun),
      (∀ span, .advance span ∈ steps → 0 ≤ span) →
      (DebounceRun.trace { debouncer := { delay := d }, retriggers } steps)[i]? = some r →
      ∃ ways c history, List.Forall₂ DebounceStep.Leads (steps.take (i + 1)) ways ∧
        Clock.run { delay := d } ways.flatten = some (c, history) ∧ r.Shows c history := by
  constructor
  · intro deeds c history h
    obtain ⟨s, rfl, passes⟩ := @passes_of_run d {} deeds c history h
    exact passes.debounced hd
  · intro retriggers steps i r forward h
    rw [getElem?_trace, Option.ite_none_right_eq_some, Option.some.injEq] at h
    obtain ⟨_, rfl⟩ := h
    have start : DebounceRun.Matches d { debouncer := { delay := d }, retriggers } {} :=
      ⟨rfl, rfl, rfl, rfl⟩
    obtain ⟨ways, s, os, hways, hrun, hs, hfired⟩ :=
      start.steps (steps.take (i + 1)) fun span hspan => forward span (List.mem_of_mem_take hspan)
    exact ⟨ways, _, os, hways, hrun, hs.shows hfired.symm⟩

/-- The second trigger replaces the first, and the first call triggers once more on the same way. -/
theorem run_debounced_retriggered :
    (∃ history,
      Clock.run { delay := 2 } [.trigger, .advance 1, .proceed, .trigger, .advance 5, .proceed,
        .trigger, .proceed, .proceed, .proceed, .proceed] =
          some ({ delay := 2, now := 6, next := 3 }, history) ∧
      history.filterMap (·.fired?) = [(1, 3), (2, 5)] ∧
      Debounced 2 { delay := 2, now := 6, next := 3 } history) ∧
    ∃ r ways c history,
      (DebounceRun.trace { debouncer := { delay := 2 }, retriggers := 1 }
        [.trigger, .advance 1, .trigger, .advance 5])[3]? = some r ∧ r.fired = [3, 5] ∧
      List.Forall₂ DebounceStep.Leads [.trigger, .advance 1, .trigger, .advance 5] ways ∧
      Clock.run { delay := 2 } ways.flatten = some (c, history) ∧ r.Shows c history := by
  constructor
  · have hrun : Clock.run { delay := 2 } [.trigger, .advance 1, .proceed, .trigger, .advance 5,
        .proceed, .trigger, .proceed, .proceed, .proceed, .proceed] =
          some ({ delay := 2, now := 6, next := 3 }, [.triggered 0 0, .toward 1, .arrived 1,
            .triggered 1 1, .toward 6, .fired 1 3, .triggered 2 3, .toward 6, .fired 2 5, .toward 6,
            .arrived 6]) := by decide
    exact ⟨_, hrun, by decide, (run_debounced (by decide)).1 _ _ _ hrun⟩
  · have htrace : (DebounceRun.trace { debouncer := { delay := 2 }, retriggers := 1 }
        [.trigger, .advance 1, .trigger, .advance 5])[3]? =
          some { debouncer := { delay := 2 }, now := 6, fired := [3, 5] } := by decide
    have forward : ∀ span, .advance span ∈
        [.trigger, .advance 1, .trigger, DebounceStep.advance 5] → 0 ≤ span := by
      intro span h
      simp at h
      omega
    obtain ⟨ways, c, history, h⟩ := (run_debounced (by decide)).2 1 _ 3 _ forward htrace
    exact ⟨_, ways, c, history, htrace, rfl, h⟩

end ElementBundle.Project
