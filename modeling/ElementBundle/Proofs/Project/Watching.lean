import ElementBundle.Proofs.Project.Snapshot

/-! # Watching, step by step

While a project is watched, looks, waits and edits by others come in any order; a wait in which a
rebuild is due builds. `Session` keeps what the last build has read. Of a session only a few things
matter, the `Scene`, and `Turns` says everything that can become of it. What holds of whole sessions
follows from it by induction.
-/

namespace ElementBundle.Project

open ElementBundle.Disk

/-- Watching, with the tree that the last build has read and the number of builds since it began. -/
structure Session where
  watch : Watch
  read : Tree
  rebuilds : Nat := 0

/-- What can happen while watching. -/
inductive Happening where
  /-- Others have turned the tree into this one. -/
  | edit (t : Tree)
  | look
  | wait (span : Int)

def Session.step (x : Session) : Happening → Session
  | .edit t => { x with watch := { x.watch with tree := t } }
  | .look => { x with watch := x.watch.look.1 }
  | .wait span =>
    if (x.watch.debouncer.fire? (x.watch.time + span)).isSome then
      ⟨(x.watch.wait span).1, x.watch.tree, x.rebuilds + 1⟩
    else { x with watch := (x.watch.wait span).1 }

def Session.run (x : Session) (hs : List Happening) : Session :=
  hs.foldl Session.step x

/-- How many times others have edited the tree. -/
def edits (hs : List Happening) : Nat :=
  hs.countP fun
    | .edit _ => true
    | _ => false

theorem Session.run_append (x : Session) (hs hs' : List Happening) :
    x.run (hs ++ hs') = (x.run hs).run hs' :=
  List.foldl_append

theorem edits_append (hs hs' : List Happening) : edits (hs ++ hs') = edits hs + edits hs' :=
  List.countP_append

/-- A first build has read `t`; then the watcher looks at `start` for the first time. -/
def Session.opened (e : Engine) (directory : Path) (t start : Tree) : Session where
  watch :=
    { engine := (e.rebuild t 0).engine
      tree := start
      watcher := Watcher.start start directory e.settings.extension
      debouncer := { delay := milliseconds e.settings.debounce } }
  read := t

/-! ## Rebuilds -/

theorem rebuild_of_idle {e : Engine} (h : e.guard = {}) (t : Tree) (time : Int) :
    (e.rebuild t time).tree = (e.build t true false).tree ∧
      (e.rebuild t time).engine.settings = e.settings ∧ (e.rebuild t time).engine.guard = {} := by
  have hserved : (e.request t true).tree = (e.build t true false).tree ∧
      (e.request t true).engine.settings = e.settings ∧ (e.request t true).engine.guard = {} := by
    have hbuild : ({ e with guard := { building := true } } : Engine).build t true false =
      e.build t true false := rfl
    simp only [Engine.request, h, Guard.request, Bool.false_eq_true, if_false]
    rw [Engine.serve, hbuild]
    cases (e.build t true false).outcome with
    | error fault => exact ⟨rfl, rfl, rfl⟩
    | ok r => exact ⟨rfl, rfl, rfl⟩
  unfold Engine.rebuild
  dsimp only
  split <;> exact hserved

theorem Debouncer.pending_of_fire? {d d' : Debouncer} {time due : Int}
    (h : d.fire? time = some (due, d')) : d.pending = true ∧ d'.pending = false := by
  unfold Debouncer.fire? at h
  split at h
  · rename_i due' hdue
    simp only [Option.ite_none_right_eq_some, Option.some.injEq, Prod.mk.injEq] at h
    obtain ⟨-, -, rfl⟩ := h
    simp [Debouncer.pending, Debouncer.cancel, hdue]
  · cases h

/-! ## What can become of a session -/

structure Scene where
  tree : Tree
  seen : Snapshot
  pending : Bool
  read : Tree
  rebuilds : Nat

def Session.scene (x : Session) : Scene :=
  ⟨x.watch.tree, x.watch.watcher.seen, x.watch.debouncer.pending, x.read, x.rebuilds⟩

def Scene.Seen (x : Scene) (s : Settings) (directory : Path) : Prop :=
  ∀ name, x.seen.lookup name = (snapshot x.tree directory s.extension).lookup name

inductive Turns (s : Settings) (directory : Path) (x : Scene) : Happening → Scene → Prop
  | edit {t : Tree} (sound : t.Sound) : Turns s directory x (.edit t) { x with tree := t }
  | unchanged (same : x.Seen s directory) :
    Turns s directory x .look { x with seen := snapshot x.tree directory s.extension }
  | noticed (differs : ¬ x.Seen s directory) :
    Turns s directory x .look
      { x with seen := snapshot x.tree directory s.extension, pending := true }
  | passed (span : Int) : Turns s directory x (.wait span) x
  | rebuilt (span : Int) {written : Bool} {t' : Tree} (pending : x.pending = true)
    (leaves : s.Leaves x.tree written t') (sound : t'.Sound) :
    Turns s directory x (.wait span) ⟨t', x.seen, false, x.tree, x.rebuilds + 1⟩

theorem Turns.seen_of_look {s : Settings} {directory : Path} {x y : Scene}
    (h : Turns s directory x .look y) : y.Seen s directory := by
  cases h with
  | unchanged | noticed => exact fun _ => rfl

/-- A session in which no build runs and the tree can be one. -/
structure Session.Regular (x : Session) (s : Settings) (directory : Path) : Prop where
  settings : x.watch.engine.settings = s
  idle : x.watch.engine.guard = {}
  sound : x.watch.tree.Sound
  directory : x.watch.watcher.directory = directory
  extension : x.watch.watcher.extension = s.extension

section
variable {s : Settings} {directory : Path} {x : Session}

theorem Session.Regular.seen_iff (h : x.Regular s directory) :
    x.scene.Seen s directory ↔ (x.watch.watcher.poll x.watch.tree).1 = [] := by
  rw [Watcher.poll, h.directory, h.extension]
  exact changedNames_eq_nil_iff.symm

theorem Watch.look_of_nil {w : Watch} (h : (w.watcher.poll w.tree).1 = []) :
    w.look.1 = { w with watcher := (w.watcher.poll w.tree).2 } := by
  unfold Watch.look
  cases hpoll : w.watcher.poll w.tree with
  | mk names watcher =>
    rw [hpoll] at h
    subst h
    rfl

theorem Watch.look_of_ne_nil {w : Watch} (h : (w.watcher.poll w.tree).1 ≠ []) :
    w.look.1 = { w with
      watcher := (w.watcher.poll w.tree).2, debouncer := w.debouncer.trigger w.time } := by
  unfold Watch.look
  cases hpoll : w.watcher.poll w.tree with
  | mk names watcher =>
    rw [hpoll] at h
    cases names with
    | nil => exact absurd rfl h
    | cons name names => rfl

theorem Session.Regular.wait_of_fire? (h : x.Regular s directory) {span due : Int}
    {debouncer : Debouncer}
    (hfire : x.watch.debouncer.fire? (x.watch.time + span) = some (due, debouncer)) :
    x.step (.wait span) =
      ⟨{ x.watch with
          engine := (x.watch.engine.rebuild x.watch.tree due).engine
          tree :=
            (s.build x.watch.engine.pipeline x.watch.engine.stage x.watch.tree true false).tree
          debouncer, time := x.watch.time + span }, x.watch.tree, x.rebuilds + 1⟩ := by
  obtain ⟨rfl, hidle, -, -, -⟩ := h
  have htree : (x.watch.engine.rebuild x.watch.tree due).tree =
      (x.watch.engine.settings.build x.watch.engine.pipeline x.watch.engine.stage x.watch.tree true
        false).tree :=
    (rebuild_of_idle hidle x.watch.tree due).1
  rw [Session.step, hfire, if_pos (by simp)]
  simp only [Watch.wait, hfire, htree]

theorem Session.Regular.step (h : x.Regular s directory) (a : Happening)
    (hedit : ∀ t, a = .edit t → t.Sound) :
    (x.step a).Regular s directory ∧ Turns s directory x.scene a (x.step a).scene := by
  cases a with
  | edit t =>
    have hsound := hedit t rfl
    exact ⟨⟨h.settings, h.idle, hsound, h.directory, h.extension⟩, .edit hsound⟩
  | look =>
    have hseen : (x.watch.watcher.poll x.watch.tree).2.seen =
        snapshot x.watch.tree directory s.extension := by
      rw [← h.directory, ← h.extension]
      rfl
    by_cases hsame : x.scene.Seen s directory
    · have hlook := Watch.look_of_nil (h.seen_iff.1 hsame)
      have hscene : (x.step .look).scene =
          { x.scene with seen := snapshot x.watch.tree directory s.extension } := by
        simp only [Session.step, Session.scene, hlook, hseen]
      rw [hscene, Session.step, hlook]
      exact ⟨⟨h.settings, h.idle, h.sound, h.directory, h.extension⟩, .unchanged hsame⟩
    · have hlook := Watch.look_of_ne_nil fun hnil => hsame (h.seen_iff.2 hnil)
      have hscene : (x.step .look).scene =
          { x.scene with seen := snapshot x.watch.tree directory s.extension, pending := true } := by
        simp only [Session.step, Session.scene, hlook, hseen, Debouncer.pending, Debouncer.trigger,
          Option.isSome_some]
      rw [hscene, Session.step, hlook]
      exact ⟨⟨h.settings, h.idle, h.sound, h.directory, h.extension⟩, .noticed hsame⟩
  | wait span =>
    cases hfire : x.watch.debouncer.fire? (x.watch.time + span) with
    | none =>
      have hwait : (x.watch.wait span).1 = { x.watch with time := x.watch.time + span } := by
        simp only [Watch.wait, hfire]
      rw [Session.step, hfire, if_neg (by simp), hwait]
      exact ⟨⟨h.settings, h.idle, h.sound, h.directory, h.extension⟩, .passed span⟩
    | some fired =>
      obtain ⟨due, debouncer⟩ := fired
      have hwait := h.wait_of_fire? hfire
      obtain ⟨rfl, hidle, hsound, hdirectory, hextension⟩ := h
      obtain ⟨-, hsettings, hguard⟩ := rebuild_of_idle hidle x.watch.tree due
      obtain ⟨hpending, hdone⟩ := Debouncer.pending_of_fire? hfire
      obtain ⟨hleaves, hleft⟩ :=
        build_leaves hsound x.watch.engine.pipeline x.watch.engine.stage true false none
      rw [hwait]
      refine ⟨⟨hsettings, hguard, hleft, hdirectory, hextension⟩, ?_⟩
      simp only [Session.scene, hdone]
      exact .rebuilt span hpending hleaves hleft

theorem Session.regular_opened {e : Engine} (hidle : e.guard = {}) {start : Tree}
    (hstart : start.Sound) (directory : Path) (t : Tree) :
    (Session.opened e directory t start).Regular e.settings directory := by
  obtain ⟨-, hsettings, hguard⟩ := rebuild_of_idle hidle t 0
  exact ⟨hsettings, hguard, hstart, rfl, rfl⟩

end

end ElementBundle.Project
