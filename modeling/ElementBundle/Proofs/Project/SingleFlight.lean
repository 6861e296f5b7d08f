import ElementBundle.Proofs.Project.Callers
import Mathlib.Data.List.Induction

/-! # Single flight

Whatever callers do, at most one of them builds; the requests that come while it builds are answered
together, by one more build of the same caller. The one exception is a build that ends by a fault: it
takes the requests that came meanwhile down with it.
-/

namespace ElementBundle.Project

open ElementBundle.Disk

/-! ## The state of the guard -/

theorem Callers.Sound.length_inside {s : Callers} (hs : s.Sound) :
    s.inside.length = if s.guard.building then 1 else 0 := by
  cases hs <;> rfl

theorem Callers.Sound.building_of_pending {s : Callers} (hs : s.Sound)
    (h : s.guard.pending = true) : s.guard.building = true := by
  cases hs with
  | idle => cases h
  | busy => rfl

theorem Callers.Sound.eq_of_empty {s : Callers} (hs : s.Sound) (h : s.inside = []) : s = {} := by
  cases hs with
  | idle => rfl
  | busy => cases h

theorem Callers.Sound.step_request {s : Callers} (hs : s.Sound) (c : Nat) :
    s.step (.request c) =
      if s.guard.building then some (⟨⟨true, true⟩, s.inside⟩, .remembered c)
      else some (⟨⟨true, false⟩, [(c, .building)]⟩, .started c) := by
  cases hs <;> rfl

/-! ## One build and the next -/

theorem Happens.of_build {s s' : Callers} {o : Occurrence} {c : Nat} (h : Happens s o s')
    (hc : o.build? = some c) : s' = ⟨⟨true, false⟩, [(c, .building)]⟩ := by
  cases h <;> simp_all [Occurrence.build?]

theorem countP_isRequest_of_quiet {os : List Occurrence} (quiet : ∀ o ∈ os, o.isTurn = false) :
    os.countP (·.isRequest) = os.countP (·.isRemembered) := by
  apply List.countP_congr
  intro o ho
  have := quiet o ho
  cases o <;> simp_all [Occurrence.isTurn, Occurrence.build?, Occurrence.isRequest,
    Occurrence.isRemembered]

theorem Unfolds.turn_of_build {s s' : Callers} {before during after : List Occurrence}
    {start stop : Occurrence} {c : Nat}
    (h : Unfolds s (before ++ start :: (during ++ stop :: after)) s') (hc : start.build? = some c)
    (quiet : ∀ o ∈ during, o.isTurn = false) (hstop : stop.isTurn = true) :
    stop = if .failed c ∈ during then .raised c
      else if 0 < during.countP (·.isRequest) then .followed c else .returned c := by
  obtain ⟨m, -, hrest⟩ := h.split
  cases hrest with
  | cons first rest =>
    rw [first.of_build hc] at rest
    have := rest.turn quiet hstop
    simpa [countP_isRequest_of_quiet quiet, List.countP_pos_iff] using this

/-! ## A request that is served on its own -/

theorem Callers.run_append {s m s' : Callers} {acts later : List Act} {os os' : List Occurrence}
    (h : s.run acts = some (m, os)) (h' : m.run later = some (s', os')) :
    s.run (acts ++ later) = some (s', os ++ os') := by
  induction acts generalizing s os with
  | nil =>
    simp only [Callers.run, Option.some.injEq, Prod.mk.injEq] at h
    obtain ⟨rfl, rfl⟩ := h
    simpa using h'
  | cons a acts ih =>
    simp only [Callers.run, List.cons_append] at h ⊢
    split at h
    · cases h
    · rename_i s₁ o hstep
      obtain ⟨⟨m', os₁⟩, hrun, heq⟩ := Option.map_eq_some_iff.1 h
      obtain ⟨rfl, rfl⟩ := Prod.mk.inj heq
      simp [ih hrun]

theorem Guard.requests_building (p : Bool) (n : Nat) :
    Guard.requests ⟨true, p⟩ n = ⟨true, p || 0 < n⟩ := by
  induction n generalizing p with
  | zero => simp [Guard.requests]
  | succ n ih => simp [Guard.requests, Guard.request, ih]

theorem run_requests (p : Bool) (c d n : Nat) :
    Callers.run ⟨⟨true, p⟩, [(c, .building)]⟩ (List.replicate n (.request d)) =
      some (⟨Guard.requests ⟨true, p⟩ n, [(c, .building)]⟩, List.replicate n (.remembered d)) := by
  induction n generalizing p with
  | zero => rfl
  | succ n ih =>
    simp [List.replicate_succ, Callers.run, Callers.step, Guard.request, ih, Guard.requests]

/-- The steps of one build of a caller, and of the requests that come meanwhile. -/
def buildActs (c n : Nat) (ok : Bool) : List Act :=
  List.replicate n (.request c) ++ if ok then [.succeed c, .leave c] else [.fail c, .release c]

theorem run_buildActs_fail (c n : Nat) :
    Callers.run ⟨⟨true, false⟩, [(c, .building)]⟩ (buildActs c n false) =
      some ({}, List.replicate n (.remembered c) ++ [.failed c, .raised c]) := by
  apply Callers.run_append (run_requests false c c n)
  simp [Callers.run, Callers.step, Callers.moved, Guard.release]

theorem run_buildActs_ok (c n : Nat) :
    Callers.run ⟨⟨true, false⟩, [(c, .building)]⟩ (buildActs c n true) =
      if 0 < n then some (⟨⟨true, false⟩, [(c, .building)]⟩,
        List.replicate n (.remembered c) ++ [.ended c, .followed c])
      else some ({}, [.ended c, .returned c]) := by
  by_cases hn : 0 < n
  · rw [if_pos hn]
    apply Callers.run_append (run_requests false c c n)
    simp [Callers.run, Callers.step, Callers.moved, Guard.requests_building, Guard.finish, hn]
  · obtain rfl : n = 0 := by omega
    simp [buildActs, Callers.run, Callers.step, Callers.moved, Guard.finish]

/-- What a request has come to, as far as the guard knows. -/
def Served.tally (r : Served) : Guard × Nat × Nat :=
  (r.engine.guard, r.builds, r.remembered)

section
variable {quiet : Bool} {meanwhile : List Nat} {e : Engine} {t : Tree}

theorem tally_serve_of_error {f : Fault} (h : (e.build t quiet false).outcome = .error f) :
    (Engine.serve quiet meanwhile e t).tally = ({}, 1, meanwhile.headD 0) := by
  rw [Engine.serve]
  simp only [h]
  rfl

theorem tally_serve_of_none {r : Result} (h : (e.build t quiet false).outcome = .ok r)
    (he : e.guard = ⟨true, false⟩) (hn : meanwhile.headD 0 = 0) :
    (Engine.serve quiet meanwhile e t).tally = ({}, 1, 0) := by
  rw [Engine.serve]
  simp only [h, hn, he]
  cases meanwhile <;> rfl

theorem tally_serve_of_pos {r : Result} {n : Nat} (later : List Nat)
    (h : (e.build t quiet false).outcome = .ok r) (he : e.guard = ⟨true, false⟩) (hn : 0 < n) :
    ∃ e' t', e'.guard = ⟨true, false⟩ ∧
      (Engine.serve quiet (n :: later) e t).tally =
        ((Engine.serve quiet later e' t').engine.guard, (Engine.serve quiet later e' t').builds + 1,
          n + (Engine.serve quiet later e' t').remembered) := by
  rw [Engine.serve]
  simp only [h, he, List.headD_cons, Guard.requests_building, hn, decide_true, Bool.or_true,
    Guard.finish, if_true]
  exact ⟨_, _, rfl, rfl⟩

end

theorem exists_run_serve (quiet : Bool) (c : Nat) (meanwhile : List Nat) (e : Engine) (t : Tree)
    (he : e.guard = ⟨true, false⟩) :
    ∃ acts history, Callers.run ⟨⟨true, false⟩, [(c, .building)]⟩ acts = some ({}, history) ∧
      (Engine.serve quiet meanwhile e t).tally =
        ({}, history.countP (·.build?.isSome) + 1, history.countP (·.isRemembered)) := by
  induction meanwhile generalizing e t with
  | nil =>
    cases hpass : (e.build t quiet false).outcome with
    | error f => exact ⟨_, _, run_buildActs_fail c 0, tally_serve_of_error hpass⟩
    | ok r => exact ⟨_, _, run_buildActs_ok c 0, tally_serve_of_none hpass he rfl⟩
  | cons n later ih =>
    cases hpass : (e.build t quiet false).outcome with
    | error f =>
      refine ⟨_, _, run_buildActs_fail c n, ?_⟩
      simp [tally_serve_of_error hpass, Occurrence.build?, Occurrence.isRemembered,
        List.countP_replicate]
    | ok r =>
      have hrun := run_buildActs_ok c n
      by_cases hn : 0 < n
      · rw [if_pos hn] at hrun
        obtain ⟨e', t', he', htally⟩ := tally_serve_of_pos later hpass he hn
        obtain ⟨acts, history, hlater, hnext⟩ := ih e' t' he'
        refine ⟨_, _, Callers.run_append hrun hlater, ?_⟩
        simp only [Served.tally, Prod.mk.injEq] at hnext
        simp [htally, hnext, Occurrence.build?, Occurrence.isRemembered, List.countP_replicate]
      · rw [if_neg hn] at hrun
        exact ⟨_, _, hrun, tally_serve_of_none hpass he (by simp; omega)⟩

/-- A request that finds the guard idle is a run of its steps: the caller's entry, then its builds
with the requests that come during each of them. -/
theorem exists_run_request (e : Engine) (t : Tree) (quiet : Bool) (meanwhile : List Nat) (c : Nat)
    (he : e.guard = {}) :
    ∃ acts history, Callers.run {} (.request c :: acts) = some ({}, .started c :: history) ∧
      (e.request t quiet meanwhile).tally =
        ({}, history.countP (·.build?.isSome) + 1, history.countP (·.isRemembered)) := by
  obtain ⟨acts, history, hrun, htally⟩ :=
    exists_run_serve quiet c meanwhile { e with guard := ⟨true, false⟩ } t rfl
  refine ⟨acts, history, ?_, ?_⟩
  · simp [Callers.run, Callers.step, Guard.request, hrun]
  · simpa [Engine.request, he, Guard.request, Occurrence.build?, Occurrence.isRemembered] using htally

/-! ## All runs -/

/-- Callers taking their steps in any order: one of them builds, or none, and the requests that come
during a build that ends well make it follow once more, all of them only once. When nobody builds any
more, the next request of an engine is again such a run, and starts with a build. -/
theorem run_singleFlight {acts : List Act} {s : Callers} {history : List Occurrence}
    (h : Callers.run {} acts = some (s, history)) :
    s.inside.length = (if s.guard.building then 1 else 0) ∧
    (s.guard.pending = true → s.guard.building = true) ∧
    (∀ before start c during stop after,
      history = before ++ start :: (during ++ stop :: after) →
      start.build? = some c → (∀ o ∈ during, o.isTurn = false) → stop.isTurn = true →
      stop = if .failed c ∈ during then .raised c
        else if 0 < during.countP (·.isRequest) then .followed c else .returned c) ∧
    (∀ c, s.step (.request c) =
      if s.guard.building then some (⟨⟨true, true⟩, s.inside⟩, .remembered c)
      else some (⟨⟨true, false⟩, [(c, .building)]⟩, .started c)) ∧
    history.countP (·.build?.isSome) ≤ history.countP (·.isRequest) ∧
    (s.inside = [] → s.guard = {} ∧ ∀ (e : Engine) t quiet meanwhile c, e.guard = s.guard →
      ∃ later history', s.run (.request c :: later) = some ({}, .started c :: history') ∧
        (e.request t quiet meanwhile).tally =
          ({}, history'.countP (·.build?.isSome) + 1, history'.countP (·.isRemembered))) := by
  have unfolds := unfolds_of_run .idle h
  have hs := unfolds.sound .idle
  have counts := unfolds.builds_le
  refine ⟨hs.length_inside, hs.building_of_pending, ?_, hs.step_request, ?_, fun hempty => ?_⟩
  · intro before start c during stop after hsplit hc quiet hstop
    rw [hsplit] at unfolds
    exact unfolds.turn_of_build hc quiet hstop
  · simp only [Bool.toNat_false] at counts
    omega
  · obtain rfl := hs.eq_of_empty hempty
    exact ⟨rfl, fun e t quiet meanwhile c he => exists_run_request e t quiet meanwhile c he⟩

/-- Three requests during the first build: from inside it, from outside, and behind its end. The
follow-up fails, with one more request behind the fault. -/
theorem run_singleFlight_mixed :
    let during : List Occurrence := [.remembered 0, .remembered 1, .ended 0, .remembered 2]
    let after : List Occurrence := [.failed 0, .remembered 3, .raised 0]
    let history : List Occurrence := .started 0 :: (during ++ .followed 0 :: after)
    Callers.run {} [.request 0, .request 0, .request 1, .succeed 0, .request 2, .leave 0, .fail 0,
      .request 3, .release 0] = some ({}, history) ∧
    .followed 0 = (if .failed 0 ∈ during then .raised 0
      else if 0 < during.countP (·.isRequest) then .followed 0 else .returned 0 : Occurrence) ∧
    history.countP (·.build?.isSome) ≤ history.countP (·.isRequest) ∧
    Callers.step {} (.request 4) = some (⟨⟨true, false⟩, [(4, .building)]⟩, .started 4) := by
  intro during after history
  have hrun : Callers.run {} [.request 0, .request 0, .request 1, .succeed 0, .request 2, .leave 0,
      .fail 0, .request 3, .release 0] = some ({}, history) := by decide
  obtain ⟨-, -, hturn, hrequest, hcount, -⟩ := run_singleFlight hrun
  exact ⟨hrun, hturn [] _ 0 during _ after rfl rfl (by decide) rfl, hcount, hrequest 4⟩

/-! ## Remembered requests -/

/-- A build starts before the guard becomes idle. -/
def answered (after : List Occurrence) : Bool :=
  (after.find? (·.isTurn)).any (·.build?.isSome)

/-- The guard becomes idle before a build starts. -/
def lost (after : List Occurrence) : Bool :=
  (after.find? (·.isTurn)).any (·.isRelease)

/-- What has happened since the build of the caller in the loop started. -/
theorem Unfolds.running {os : List Occurrence} {p : Bool} {c : Nat} {leg : Leg}
    (h : Unfolds {} os ⟨⟨true, p⟩, [(c, leg)]⟩) :
    ∃ earlier start during, os = earlier ++ start :: during ∧ start.build? = some c ∧
      (∀ o ∈ during, o.isTurn = false) ∧ (.failed c ∈ during ↔ leg = .broken) := by
  -- From the end: either the last occurrence is the start, or the one before it left the same
  -- caller in the loop.
  induction os using List.reverseRecOn generalizing p leg with
  | nil => cases h
  | append_singleton front o ih =>
    obtain ⟨m, hfront, hlast⟩ := h.split
    cases hlast with
    | cons last rest =>
      cases rest
      cases last with
      | started => exact ⟨front, _, [], rfl, rfl, by simp, by simp⟩
      | followed => exact ⟨front, _, [], rfl, rfl, by simp, by simp⟩
      | remembered _ _ _ d =>
        obtain ⟨earlier, start, during, rfl, hstart, quiet, hleg⟩ := ih hfront
        refine ⟨earlier, start, during ++ [.remembered d], by simp, hstart, ?_, by simpa using hleg⟩
        simpa [or_imp, forall_and] using ⟨quiet, rfl⟩
      | ended =>
        obtain ⟨earlier, start, during, rfl, hstart, quiet, hleg⟩ := ih hfront
        refine ⟨earlier, start, during ++ [.ended c], by simp, hstart, ?_, by simpa using hleg⟩
        simpa [or_imp, forall_and] using ⟨quiet, rfl⟩
      | failed =>
        obtain ⟨earlier, start, during, rfl, hstart, quiet, -⟩ := ih hfront
        refine ⟨earlier, start, during ++ [.failed c], by simp, hstart, ?_, by simp⟩
        simpa [or_imp, forall_and] using ⟨quiet, rfl⟩

theorem Unfolds.pending_of_quiet {os : List Occurrence} {c : Nat} {leg : Leg} {s' : Callers}
    (h : Unfolds ⟨⟨true, true⟩, [(c, leg)]⟩ os s') (quiet : ∀ o ∈ os, o.isTurn = false) :
    s'.guard.pending = true := by
  induction os generalizing leg with
  | nil => cases h; rfl
  | cons o os ih =>
    have hquiet := List.forall_mem_cons.1 quiet
    cases h with
    | cons first rest =>
      cases first with
      | remembered | ended | failed => exact ih rest hquiet.2
      | followed | raised => simp [Occurrence.isTurn, Occurrence.build?, Occurrence.isRelease] at hquiet

theorem Unfolds.find?_turn {after : List Occurrence} {d : Nat} {leg : Leg} {s' : Callers}
    {stop : Occurrence} (h : Unfolds ⟨⟨true, true⟩, [(d, leg)]⟩ after s')
    (hstop : after.find? (·.isTurn) = some stop) :
    stop = if leg = .broken ∨ .failed d ∈ after.takeWhile (!·.isTurn) then .raised d
      else .followed d := by
  obtain ⟨hturn, front, back, rfl, hfront⟩ := List.find?_eq_some_iff_append.1 hstop
  have quiet : ∀ o ∈ front, o.isTurn = false := by simpa using hfront
  have htake : (front ++ stop :: back).takeWhile (!·.isTurn) = front := by
    rw [List.takeWhile_append_of_pos (by simpa using quiet)]
    simp [hturn]
  rw [htake]
  simpa using h.turn quiet hturn

/-- The next turn behind a remembered request answers it exactly if the build that ran when it came does
not fail. -/
theorem run_remembered {acts : List Act} {s : Callers} {history before after : List Occurrence}
    {c : Nat} (h : Callers.run {} acts = some (s, history))
    (hsplit : history = before ++ .remembered c :: after) :
    ∃ earlier start d during, before = earlier ++ start :: during ∧ start.build? = some d ∧
      (∀ o ∈ during, o.isTurn = false) ∧
      (answered after = true ↔ after.any (·.isTurn) = true ∧
        .failed d ∉ during ++ after.takeWhile (!·.isTurn)) ∧
      (lost after = true ↔ after.any (·.isTurn) = true ∧
        .failed d ∈ during ++ after.takeWhile (!·.isTurn)) ∧
      (after.any (·.isTurn) = false → s.guard.pending = true) := by
  have unfolds := unfolds_of_run .idle h
  rw [hsplit] at unfolds
  obtain ⟨m, hbefore, hrest⟩ := unfolds.split
  cases hrest with
  | cons first rest =>
    cases first with
    | remembered p d leg =>
      obtain ⟨earlier, start, during, rfl, hstart, quiet, hleg⟩ := hbefore.running
      refine ⟨earlier, start, d, during, rfl, hstart, quiet, ?_⟩
      cases hfind : after.find? (·.isTurn) with
      | none =>
        have hafter : ∀ o ∈ after, o.isTurn = false := by simpa using hfind
        have hany : after.any (·.isTurn) = false := by simpa using hafter
        simpa [answered, lost, hfind, hany] using rest.pending_of_quiet hafter
      | some stop =>
        have hany : after.any (·.isTurn) = true :=
          List.any_eq_true.2 ⟨stop, List.mem_of_find?_eq_some hfind, List.find?_some hfind⟩
        have hstop := rest.find?_turn hfind
        simp only [← hleg, ← List.mem_append] at hstop
        by_cases hfail : .failed d ∈ during ++ after.takeWhile (!·.isTurn)
        · rw [if_pos hfail] at hstop
          simp [answered, lost, hfind, hany, hfail, hstop, Occurrence.build?, Occurrence.isRelease]
        · rw [if_neg hfail] at hstop
          simp [answered, lost, hfind, hany, hfail, hstop, Occurrence.build?, Occurrence.isRelease]

/-- A request between the end of a build and the section behind it. -/
theorem run_remembered_late :
    Callers.run {} [.request 0, .succeed 0, .request 1, .leave 0] =
      some (⟨⟨true, false⟩, [(0, .building)]⟩, [.started 0, .ended 0, .remembered 1, .followed 0]) ∧
    answered [.followed 0] = true := by
  have hrun : Callers.run {} [.request 0, .succeed 0, .request 1, .leave 0] =
      some (⟨⟨true, false⟩, [(0, .building)]⟩,
        [.started 0, .ended 0, .remembered 1, .followed 0]) := by decide
  have hsplit : [.started 0, .ended 0, .remembered 1, .followed 0] =
      [Occurrence.started 0, .ended 0] ++ .remembered 1 :: [.followed 0] := rfl
  obtain ⟨earlier, start, d, during, hbefore, -, -, hanswered, -, -⟩ := run_remembered hrun hsplit
  have hfailed : .failed d ∉ during := by
    have : Occurrence.failed d ∉ [.started 0, .ended 0] := by simp
    rw [hbefore] at this
    simp_all
  exact ⟨hrun, hanswered.2 ⟨by decide, by simpa [Occurrence.isTurn, Occurrence.build?] using hfailed⟩⟩

/-- The build that runs when a request is remembered fails, and no other one follows. -/
theorem request_lost :
    (Callers.run {} [.request 0, .request 1, .fail 0, .release 0] =
        some ({}, [.started 0] ++ .remembered 1 :: [.failed 0, .raised 0]) ∧
      [Occurrence.failed 0, .raised 0].any (·.isRelease) = true ∧
      answered [.failed 0, .raised 0] = false) ∧
    (Engine.request { settings := { root := ⟨["work"]⟩ } } { entries := [(["work"], .directory)] }
      true [1]).tally = ({}, 1, 1) := by
  refine ⟨by decide, ?_⟩
  decide +kernel

end ElementBundle.Project
