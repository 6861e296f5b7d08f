import ElementBundle.Proofs.Project.SelfTrigger

/-! # Builds that are up to date

The last build is up to date if it has read what the component files hold now. While watching, that is
so whenever there is nothing left to notice and no rebuild is pending, but for one gap: what is edited
between the first build and the first look is never noticed, and it stays unread until something else
causes a rebuild.

The invariant compares a file with what was seen of it. As long as no rebuild is pending, a file whose
stamp and size have been seen is the one that the last build has read, or, before there is a rebuild,
the one that the first look has found.
-/

namespace ElementBundle.Project

open ElementBundle.Disk ElementBundle.Text

/-- A build of this tree reads these bytes from a component file of this name. -/
def Settings.Reads (s : Settings) (t : Tree) (name : String) (bytes : List UInt8) : Prop :=
  ∃ directory files, s.componentsPath = .ok directory ∧ s.discover t = .ok files ∧ name ∈ files ∧
    t.read ⟨directory.parts ++ [name]⟩ = .ok bytes

/-- An edit that looks can tell from all that was there before: a file that it changes gets a stamp
and a size that no file of this name had. -/
def Telling (s : Settings) (directory : Path) (past : List Tree) (before after : Tree) : Prop :=
  ∀ name, suffix name = s.extension →
    after.at? (directory.parts ++ [name]) = before.at? (directory.parts ++ [name]) ∨
      ∀ σ, after.signature? (directory.parts ++ [name]) = some σ →
        ∀ t ∈ past, t.signature? (directory.parts ++ [name]) ≠ some σ

/-- All edits of a session are telling, given the trees that were there before it. -/
def Session.Telling (s : Settings) (directory : Path) : List Tree → Session → List Happening → Prop
  | _, _, [] => True
  | past, x, a :: hs =>
    (∀ t, a = .edit t → t.Sound ∧ Project.Telling s directory past x.watch.tree t) ∧
      Session.Telling s directory ((x.step a).watch.tree :: past) (x.step a) hs

/-- The last build has read what the component files hold. -/
def Scene.UpToDate (x : Scene) (s : Settings) (directory : Path) : Prop :=
  ∀ name bytes, s.Holds directory x.tree name bytes → s.Reads x.read name bytes

/-- Nothing is left to notice, and no rebuild is pending. -/
structure Scene.Quiet (x : Scene) (s : Settings) (directory : Path) : Prop where
  seen : x.Seen s directory
  pending : x.pending = false

section
variable {s : Settings} {directory path : Path} {t start : Tree} {past : List Tree} {x y : Scene}
  {a : Happening} {name : String} {bytes : List UInt8}

theorem Settings.reads_iff (hdirectory : s.componentsPath = .ok directory) (ht : t.Sound) :
    s.Reads t name bytes ↔ s.Holds directory t name bytes := by
  constructor
  · rintro ⟨directory', files, hdirectory', hfiles, hname, hread⟩
    obtain rfl := Except.ok.inj (hdirectory.symm.trans hdirectory')
    obtain ⟨bytes', hholds⟩ := ((discover_spec ht hdirectory hfiles).1 name).1 hname
    obtain rfl := Except.ok.inj ((hholds.read ht).symm.trans hread)
    exact hholds
  · intro hholds
    obtain ⟨stamp, hfile⟩ := hholds.file
    have hparent : t.at? directory.parts = some .directory := by
      simpa using ht.parent hfile
    have hthere : t.isDirectory directory = true := by
      simp [Tree.isDirectory, Disk.Tree.get, Tree.place, ht.walk_place hparent, hparent]
    have hfiles := (discover_eq_ok_iff hdirectory).2 ⟨hthere, rfl⟩
    exact ⟨directory, _, hdirectory, hfiles,
      ((discover_spec ht hdirectory hfiles).1 name).2 ⟨bytes, hholds⟩, hholds.read ht⟩

/-- A write with a new stamp can be told from all that came before. -/
theorem telling_stampFile (hpast : ∀ p ∈ past, p.Stamped ∧ p.nextStamp ≤ t.nextStamp)
    {q : List String} (hq : q ≠ []) (bytes : List UInt8) :
    Telling s directory past t (t.stampFile q bytes) := by
  intro name _
  rw [Tree.at?_stampFile hq]
  by_cases hsame : directory.parts ++ [name] = q
  · right
    rintro ⟨stamp, size⟩ hnew p hp hold
    obtain ⟨bytes', hfile, -⟩ := Tree.signature?_eq_some_iff.1 hnew
    obtain ⟨old, hbefore, -⟩ := Tree.signature?_eq_some_iff.1 hold
    rw [Tree.at?_stampFile hq, if_pos hsame] at hfile
    obtain ⟨hstamped, hle⟩ := hpast p hp
    have hlt := hstamped _ _ _ hbefore
    cases hfile
    omega
  · left
    rw [if_neg hsame]

/-- A component file that is there after a build was there before it, and it was the same. -/
theorem Settings.Leaves.at?_of_file {written : Bool} {t' : Tree} {stamp : Nat}
    (h : s.Leaves t written t') (hpath : s.outputPath = .ok path)
    (hsuffix : suffix path.name ≠ s.extension) (hname : suffix name = s.extension)
    (hfile : t'.at? (directory.parts ++ [name]) = some (.file bytes stamp)) :
    t.at? (directory.parts ++ [name]) = some (.file bytes stamp) := by
  rcases h.at?_cases (directory.parts ++ [name]) with
    same | ⟨path', place, bundle, hpath', site, ⟨-, hbundle⟩ | ⟨-, hnone⟩⟩
  · rwa [same] at hfile
  · obtain rfl := Except.ok.inj (hpath'.symm.trans hpath)
    have hlast : name = bundle := by simpa using congrArg List.getLast? hbundle
    exact absurd (site.name_eq ▸ hlast ▸ hname) hsuffix
  · rw [hnone] at hfile
    cases hfile

/-! ## The invariant -/

/-- What holds all along: `t` is what the first build has read, `start` is what the first look has
found, and `past` are the trees since then. -/
structure Scene.Follows (x : Scene) (s : Settings) (directory : Path) (t start : Tree)
    (past : List Tree) : Prop where
  looked : ∃ p ∈ past, p.Sound ∧ x.seen = snapshot p directory s.extension
  known : x.pending = false → ∀ name bytes stamp, suffix name = s.extension →
    x.tree.at? (directory.parts ++ [name]) = some (.file bytes stamp) →
    x.seen.lookup name = some (stamp, bytes.length) →
    (if x.rebuilds = 0 then start else x.read).at? (directory.parts ++ [name]) =
      some (.file bytes stamp)
  unnoticed : x.pending = false → x.rebuilds = 0 →
    ∀ name, x.seen.lookup name = (snapshot start directory s.extension).lookup name
  unread : x.rebuilds = 0 → x.read = t
  sound : x.read.Sound

theorem Turns.follows (h : Turns s directory x a y) (hx : x.Follows s directory t start past)
    (hsound : x.tree.Sound) (hdirectory : s.componentsPath = .ok directory)
    (hpath : s.outputPath = .ok path) (hsuffix : suffix path.name ≠ s.extension)
    (telling : ∀ t, a = .edit t → Telling s directory past x.tree t) :
    y.Follows s directory t start (y.tree :: past) := by
  have hdots := Settings.not_mem_componentsPath hdirectory
  obtain ⟨⟨p, hp, hpsound, hlooked⟩, hknown, hunnoticed, hunread, hread⟩ := hx
  have earlier : ∃ q ∈ y.tree :: past, q.Sound ∧ x.seen = snapshot q directory s.extension :=
    ⟨p, List.mem_cons_of_mem _ hp, hpsound, hlooked⟩
  cases h with
  | @edit t' sound =>
    refine ⟨earlier, ?_, hunnoticed, hunread, hread⟩
    intro hpending name bytes stamp hname hfile hseen
    rcases telling t' rfl name hname with same | fresh
    · exact hknown hpending name bytes stamp hname (same ▸ hfile) hseen
    · have hsignature := Tree.signature?_eq_some_iff.2 ⟨bytes, hfile, rfl⟩
      rw [hlooked, lookup_snapshot hpsound hdots, if_pos hname] at hseen
      exact absurd hseen (fresh _ hsignature p hp)
  | unchanged same =>
    refine ⟨⟨x.tree, List.mem_cons_self, hsound, rfl⟩, ?_, ?_, hunread, hread⟩
    · intro hpending name bytes stamp hname hfile hseen
      exact hknown hpending name bytes stamp hname hfile ((same name).trans hseen)
    · intro hpending hnone name
      exact (same name).symm.trans (hunnoticed hpending hnone name)
  | noticed differs =>
    exact ⟨⟨x.tree, List.mem_cons_self, hsound, rfl⟩, nofun, nofun, hunread, hread⟩
  | passed span => exact ⟨earlier, hknown, hunnoticed, hunread, hread⟩
  | rebuilt span pending leaves sound =>
    refine ⟨earlier, ?_, nofun, nofun, hsound⟩
    intro _ name bytes stamp hname hfile _
    exact leaves.at?_of_file hpath hsuffix hname hfile

theorem Session.Regular.follows {x : Session} {hs : List Happening} (hx : x.Regular s directory)
    (follows : x.scene.Follows s directory t start past)
    (hdirectory : s.componentsPath = .ok directory) (hpath : s.outputPath = .ok path)
    (hsuffix : suffix path.name ≠ s.extension) (telling : Session.Telling s directory past x hs) :
    (x.run hs).Regular s directory ∧
      ∃ past', (x.run hs).scene.Follows s directory t start past' := by
  induction hs generalizing x past with
  | nil => exact ⟨hx, past, follows⟩
  | cons a hs ih =>
    obtain ⟨hedits, hrest⟩ := telling
    obtain ⟨hstep, turns⟩ := hx.step a fun t ht => (hedits t ht).1
    have hnext := turns.follows follows hx.sound hdirectory hpath hsuffix fun t ht => (hedits t ht).2
    exact ih hstep hnext hrest

theorem Scene.follows_opened {e : Engine} (ht : t.Sound) (hstart : start.Sound) :
    (Session.opened e directory t start).scene.Follows e.settings directory t start [start] where
  looked := ⟨start, List.mem_singleton_self start, hstart, rfl⟩
  known := fun _ _ _ _ _ hfile _ => hfile
  unnoticed := fun _ _ _ => rfl
  unread := fun _ => rfl
  sound := ht

/-! ## Quiet sessions -/

/-- In a quiet scene the files are those that the last build has read, or that the first look has
found. -/
theorem Scene.Follows.at?_of_quiet (h : x.Follows s directory t start past)
    (hquiet : x.Quiet s directory) (hsound : x.tree.Sound)
    (hdirectory : s.componentsPath = .ok directory) (hname : suffix name = s.extension) {stamp : Nat}
    (hfile : x.tree.at? (directory.parts ++ [name]) = some (.file bytes stamp)) :
    (if x.rebuilds = 0 then start else x.read).at? (directory.parts ++ [name]) =
      some (.file bytes stamp) := by
  apply h.known hquiet.pending name bytes stamp hname hfile
  rw [hquiet.seen, lookup_snapshot hsound (Settings.not_mem_componentsPath hdirectory), if_pos hname]
  exact Tree.signature?_eq_some_iff.2 ⟨bytes, hfile, rfl⟩

/-- Before the first rebuild the files of a quiet scene are exactly those of the first look. -/
theorem Scene.Follows.holds_iff (h : x.Follows s directory t start past)
    (hquiet : x.Quiet s directory) (hsound : x.tree.Sound) (hstart : start.Sound)
    (hdirectory : s.componentsPath = .ok directory) (hnone : x.rebuilds = 0) :
    s.Holds directory x.tree name bytes ↔ s.Holds directory start name bytes := by
  have hdots := Settings.not_mem_componentsPath hdirectory
  constructor
  · rintro ⟨hnamed, stamp, hfile⟩
    have hfirst := h.at?_of_quiet hquiet hsound hdirectory hnamed.1 hfile
    rw [if_pos hnone] at hfirst
    exact ⟨hnamed, stamp, hfirst⟩
  · rintro ⟨hnamed, stamp, hfile⟩
    have hsame := (hquiet.seen name).symm.trans (h.unnoticed hquiet.pending hnone name)
    rw [lookup_snapshot hsound hdots, lookup_snapshot hstart hdots, if_pos hnamed.1, if_pos hnamed.1,
      Tree.signature?_eq_some_iff.2 ⟨bytes, hfile, rfl⟩] at hsame
    obtain ⟨bytes', hnow, -⟩ := Tree.signature?_eq_some_iff.1 hsame
    have hfirst := h.at?_of_quiet hquiet hsound hdirectory hnamed.1 hnow
    rw [if_pos hnone, hfile] at hfirst
    cases hfirst
    exact ⟨hnamed, stamp, hnow⟩

theorem Scene.Follows.upToDate_iff (h : x.Follows s directory t start past)
    (hquiet : x.Quiet s directory) (hsound : x.tree.Sound) (hstart : start.Sound)
    (hdirectory : s.componentsPath = .ok directory) :
    x.UpToDate s directory ↔ 0 < x.rebuilds ∨
      ∀ name bytes, s.Holds directory start name bytes → s.Reads t name bytes := by
  by_cases hnone : x.rebuilds = 0
  · have hread := h.unread hnone
    constructor
    · intro fresh
      right
      intro name bytes hholds
      rw [← hread]
      exact fresh name bytes ((h.holds_iff hquiet hsound hstart hdirectory hnone).2 hholds)
    · rintro (hsome | first) name bytes hholds
      · omega
      · rw [hread]
        exact first name bytes ((h.holds_iff hquiet hsound hstart hdirectory hnone).1 hholds)
  · refine iff_of_true ?_ (.inl (by omega))
    rintro name bytes ⟨hnamed, stamp, hfile⟩
    have hlast := h.at?_of_quiet hquiet hsound hdirectory hnamed.1 hfile
    rw [if_neg hnone] at hlast
    exact (Settings.reads_iff hdirectory h.sound).2 ⟨hnamed, stamp, hlast⟩

/-- If no look sees what a rebuild writes or removes, it leaves quiet what has been seen. -/
theorem Settings.Leaves.quiet {written : Bool} {t' : Tree} (h : s.Leaves t written t') (ht : t.Sound)
    (ht' : t'.Sound) (hdirectory : s.componentsPath = .ok directory)
    (apart : ∀ t path, s.outputPath = .ok path → ¬ s.Watches t path) (hleft : ¬ s.Leftover t)
    (read : Tree) (n : Nat) :
    Scene.Quiet ⟨t', snapshot t directory s.extension, false, read, n⟩ s directory := by
  rcases h.lookup_eq_or_leftover ht ht' hdirectory apart with same | ⟨hthere, -⟩
  · exact ⟨fun name => (same name).symm, rfl⟩
  · exact absurd hthere hleft

theorem Scene.Quiet.signature?_eq {t' read : Tree} {pending : Bool} {n : Nat}
    (h : Scene.Quiet ⟨t', snapshot t directory s.extension, pending, read, n⟩ s directory)
    (ht : t.Sound) (ht' : t'.Sound) (hdirectory : s.componentsPath = .ok directory)
    (hname : suffix name = s.extension) :
    t'.signature? (directory.parts ++ [name]) = t.signature? (directory.parts ++ [name]) := by
  have hdots := Settings.not_mem_componentsPath hdirectory
  have hsame : (snapshot t directory s.extension).lookup name =
      (snapshot t' directory s.extension).lookup name := h.seen name
  rw [lookup_snapshot ht hdots, lookup_snapshot ht' hdots, if_pos hname, if_pos hname] at hsame
  exact hsame.symm

theorem Turns.quiet (h : Turns s directory x a y) (hx : x.Quiet s directory) (ha : edits [a] = 0) :
    y.Quiet s directory ∧ y.tree = x.tree ∧ y.read = x.read ∧ y.rebuilds = x.rebuilds := by
  cases h with
  | edit sound => cases ha
  | unchanged same => exact ⟨⟨fun _ => rfl, hx.pending⟩, rfl, rfl, rfl⟩
  | noticed differs => exact absurd hx.seen differs
  | passed span => exact ⟨hx, rfl, rfl, rfl⟩
  | rebuilt span pending leaves sound => exact absurd (hx.pending.symm.trans pending) nofun

theorem Session.Regular.quiet {x : Session} {hs : List Happening} (hx : x.Regular s directory)
    (hquiet : x.scene.Quiet s directory) (hs0 : edits hs = 0) :
    (x.run hs).scene.Quiet s directory ∧ (x.run hs).watch.tree = x.watch.tree ∧
      (x.run hs).read = x.read ∧ (x.run hs).rebuilds = x.rebuilds := by
  induction hs generalizing x with
  | nil => exact ⟨hquiet, rfl, rfl, rfl⟩
  | cons a hs ih =>
    rw [← List.singleton_append, edits_append] at hs0
    have ha : edits [a] = 0 := by omega
    obtain ⟨hstep, turns⟩ := hx.step a fun t hedit => by
      rw [hedit] at ha
      cases ha
    obtain ⟨hnext, htree, hread, hrebuilds⟩ := turns.quiet hquiet ha
    obtain ⟨hlast, htree', hread', hrebuilds'⟩ := ih hstep hnext (by omega)
    exact ⟨hlast, htree'.trans htree, hread'.trans hread, hrebuilds'.trans hrebuilds⟩

end

/-- Take any session in which edits can be told from what was there before and the bundle is no
component by its extension. No build runs between its steps. When it is quiet, the last build is up to
date exactly if there was a rebuild or nothing was missed between the first build and the first look,
so it always is if nobody edits there; and quiet it remains until the next edit. -/
theorem watch_upToDate {e : Engine} {directory path : Path} {t start : Tree} {hs : List Happening}
    (hdirectory : e.settings.componentsPath = .ok directory)
    (hpath : e.settings.outputPath = .ok path) (hsuffix : suffix path.name ≠ e.settings.extension)
    (hidle : e.guard = {}) (ht : t.Sound) (hstart : start.Sound)
    (telling : Session.Telling e.settings directory [start] (Session.opened e directory t start) hs) :
    ∀ x, (Session.opened e directory t start).run hs = x →
      x.watch.engine.guard = {} ∧
      (x.scene.Quiet e.settings directory →
        (x.scene.UpToDate e.settings directory ↔ 0 < x.rebuilds ∨
          ∀ name bytes, e.settings.Holds directory start name bytes →
            e.settings.Reads t name bytes) ∧
        (start = (e.rebuild t 0).tree → x.scene.UpToDate e.settings directory) ∧
        ∀ later, edits later = 0 → (x.run later).scene.Quiet e.settings directory ∧
          (x.run later).watch.tree = x.watch.tree ∧ (x.run later).read = x.read) := by
  rintro x rfl
  obtain ⟨hregular, past, follows⟩ :=
    (Session.regular_opened hidle hstart directory t).follows (Scene.follows_opened ht hstart)
      hdirectory hpath hsuffix telling
  refine ⟨hregular.idle, fun hquiet => ?_⟩
  have hiff := follows.upToDate_iff hquiet hregular.sound hstart hdirectory
  refine ⟨hiff, fun hbuilt => hiff.2 (.inr ?_), fun later hnone => ?_⟩
  · rintro name bytes ⟨hnamed, stamp, hfile⟩
    rw [hbuilt, (rebuild_of_idle hidle t 0).1] at hfile
    have hleaves := (@build_leaves e.settings t ht e.pipeline e.stage true false none).1
    have hbefore := hleaves.at?_of_file hpath hsuffix hnamed.1 hfile
    exact (Settings.reads_iff hdirectory ht).2 ⟨hnamed, stamp, hbefore⟩
  · obtain ⟨hlater, htree, hread, -⟩ := hregular.quiet hquiet hnone
    exact ⟨hlater, htree, hread⟩

def built : Tree :=
  (usual.rebuild imported 0).tree

/-- Someone writes other attributes into the component. -/
def revised : Tree :=
  built.stampFile ["w", "components", "a-b.jsx"] (encodeUtf8 "class A \x7b\n// <a-b y />\n\x7d".toList)

def rewritten : Tree :=
  revised.stampFile ["w", "components", "a-b.jsx"] (encodeUtf8 "class A \x7b\n// <a-b z />\n\x7d".toList)

theorem sound_built : built.Sound := by
  rw [built, (rebuild_of_idle rfl imported 0).1]
  exact (build_leaves sound_imported usual.pipeline usual.stage true false none).2

theorem sound_stampFile_component {t : Tree} (ht : t.Sound)
    (hfile : (t.signature? ["w", "components", "a-b.jsx"]).isSome) (bytes : List UInt8) :
    (t.stampFile ["w", "components", "a-b.jsx"] bytes).Sound := by
  obtain ⟨⟨stamp, size⟩, hsignature⟩ := Option.isSome_iff_exists.1 hfile
  obtain ⟨old, hold, -⟩ := Tree.signature?_eq_some_iff.1 hsignature
  have hput := ht.put_file (by decide) (by decide) (ht.parent hold) (by simp [hold]) bytes t.nextStamp
  exact ⟨hput.distinct, hput.named, hput.inside⟩

theorem sound_revised : revised.Sound :=
  sound_stampFile_component sound_built (by decide +kernel) _

theorem sound_rewritten : rewritten.Sound :=
  sound_stampFile_component sound_revised (by decide +kernel) _

theorem telling_revised : Telling usual.settings components [built] built revised := by
  apply telling_stampFile _ (by decide)
  intro p hp
  obtain rfl := List.mem_singleton.1 hp
  exact ⟨Tree.stamped_of_all (by decide +kernel), Nat.le_refl _⟩

def revising : Session :=
  (Session.opened usual components imported built).run [.edit revised, .look]

theorem watch_revising : revising.watch =
    { (Session.opened usual components imported revised).watch with
      debouncer := { delay := milliseconds usual.settings.debounce,
                     due := some (0 + milliseconds usual.settings.debounce) } } := by
  have hlook : ((Session.opened usual components imported built).step (.edit revised)).watch.look.1 = _ :=
    Watch.look_of_ne_nil (by decide +kernel)
  show ((Session.opened usual components imported built).step (.edit revised)).watch.look.1 = _
  rw [hlook]
  rfl

theorem regular_revising : revising.Regular usual.settings components := by
  have hopened : (Session.opened usual components imported built).Regular usual.settings components :=
    Session.regular_opened rfl sound_built components imported
  have hedited := (hopened.step (.edit revised) fun t h => by cases h; exact sound_revised).1
  exact (hedited.step .look nofun).1

/-- The rebuild comes after the delay, whatever the tree has become by then. -/
theorem exists_scene_rebuilt {x : Session} {t : Tree} (hregular : x.Regular usual.settings components)
    (hx : x.watch = { revising.watch with tree := t }) :
    ∃ written t', usual.settings.Leaves t written t' ∧ t'.Sound ∧
      (x.step (.wait (milliseconds usual.settings.debounce))).scene =
        ⟨t', snapshot revised components usual.settings.extension, false, t, x.rebuilds + 1⟩ := by
  have htree : x.watch.tree = t := by rw [hx]
  rw [watch_revising] at hx
  have hfire : x.watch.debouncer.fire? (x.watch.time + milliseconds usual.settings.debounce) =
      some (0 + milliseconds usual.settings.debounce, x.watch.debouncer.cancel) := by
    have hdue : x.watch.debouncer.due = some (0 + milliseconds usual.settings.debounce) := by rw [hx]
    have htime : x.watch.time = 0 := by rw [hx]; rfl
    simp [Debouncer.fire?, hdue, htime]
  obtain ⟨hleaves, hsound⟩ := @build_leaves usual.settings t (htree ▸ hregular.sound)
    x.watch.engine.pipeline x.watch.engine.stage true false none
  refine ⟨_, _, hleaves, hsound, ?_⟩
  rw [hregular.wait_of_fire? hfire, htree]
  have hseen : x.watch.watcher.seen = snapshot revised components usual.settings.extension := by
    rw [hx]
    rfl
  simp only [Session.scene, hseen]
  rfl

theorem telling_revising : Session.Telling usual.settings components [built]
    (Session.opened usual components imported built)
    [.edit revised, .look, .wait (milliseconds usual.settings.debounce)] := by
  refine ⟨fun t h => ?_, nofun, nofun, trivial⟩
  obtain rfl := Happening.edit.inj h
  exact ⟨sound_revised, telling_revised⟩

theorem quiet_revised :
    (revising.step (.wait (milliseconds usual.settings.debounce))).scene.Quiet usual.settings
        components ∧
      (revising.step (.wait (milliseconds usual.settings.debounce))).rebuilds = 1 := by
  obtain ⟨written, t', hleaves, hsound, hscene⟩ :=
    @exists_scene_rebuilt revising revised regular_revising (by rw [watch_revising]; rfl)
  refine ⟨?_, congrArg Scene.rebuilds hscene⟩
  rw [hscene]
  exact hleaves.quiet sound_revised hsound componentsPath_usual not_watches_usual
    (not_leftover_usual revised) _ _

/-- A revision is noticed, and the rebuild for it has read it. -/
theorem watch_upToDate_revised :
    Session.Telling usual.settings components [built]
      (Session.opened usual components imported built)
      [.edit revised, .look, .wait (milliseconds usual.settings.debounce)] ∧
    ∀ x, (Session.opened usual components imported built).run
        [.edit revised, .look, .wait (milliseconds usual.settings.debounce)] = x →
      x.scene.Quiet usual.settings components ∧ x.rebuilds = 1 ∧
        x.scene.UpToDate usual.settings components := by
  refine ⟨telling_revising, ?_⟩
  intro x hx
  have hrun : revising.step (.wait (milliseconds usual.settings.debounce)) = x := hx
  obtain ⟨hquiet, hrebuilds⟩ := quiet_revised
  rw [hrun] at hquiet hrebuilds
  obtain ⟨-, hresult⟩ := watch_upToDate componentsPath_usual outputPath_usual (by decide) rfl sound_imported
    sound_built telling_revising x hx
  obtain ⟨-, hfresh, -⟩ := hresult hquiet
  exact ⟨hquiet, hrebuilds, hfresh built.eq_1⟩

theorem Scene.not_upToDate {x : Scene} {s : Settings} {directory : Path} {name : String}
    {bytes old : List UInt8} {stamp stamp' : Nat} (hdirectory : s.componentsPath = .ok directory)
    (hsound : x.read.Sound) (hnamed : s.Names name)
    (hnow : x.tree.at? (directory.parts ++ [name]) = some (.file bytes stamp))
    (hread : x.read.at? (directory.parts ++ [name]) = some (.file old stamp')) (hne : bytes ≠ old) :
    ¬ x.UpToDate s directory := by
  intro fresh
  obtain ⟨-, stamp'', hfile⟩ :=
    (Settings.reads_iff hdirectory hsound).1 (fresh name bytes ⟨hnamed, stamp, hnow⟩)
  rw [hread] at hfile
  cases hfile
  exact hne rfl

theorem at?_imported : imported.at? ["w", "components", "a-b.jsx"] =
    some (.file (encodeUtf8 "class A \x7b\r\n// <a-b x! />\r\n\x7d".toList) 0) :=
  rfl

theorem at?_revised : revised.at? ["w", "components", "a-b.jsx"] =
    some (.file (encodeUtf8 "class A \x7b\n// <a-b y />\n\x7d".toList) built.nextStamp) := by
  rw [revised, Tree.at?_stampFile (by decide), if_pos rfl]

theorem at?_rewritten : rewritten.at? ["w", "components", "a-b.jsx"] =
    some (.file (encodeUtf8 "class A \x7b\n// <a-b z />\n\x7d".toList) (built.nextStamp + 1)) := by
  rw [rewritten, Tree.at?_stampFile (by decide), if_pos rfl]
  rfl

/-- The rebuild for the revision comes when the component has been written once more. -/
def overtaken : Session :=
  (revising.step (.edit rewritten)).step (.wait (milliseconds usual.settings.debounce))

theorem signature_ne_rewritten : rewritten.signature? ["w", "components", "a-b.jsx"] ≠
    revised.signature? ["w", "components", "a-b.jsx"] := by
  have hnew := Tree.signature?_eq_some_iff.2 ⟨_, at?_rewritten, rfl⟩
  have hold := Tree.signature?_eq_some_iff.2 ⟨_, at?_revised, rfl⟩
  rw [hnew, hold]
  simp

theorem exists_scene_overtaken : ∃ t', t'.signature? ["w", "components", "a-b.jsx"] ≠
      revised.signature? ["w", "components", "a-b.jsx"] ∧
    overtaken.scene =
      ⟨t', snapshot revised components usual.settings.extension, false, rewritten, 1⟩ := by
  have hregular := (regular_revising.step (.edit rewritten) fun t h => by
    obtain rfl := Happening.edit.inj h
    exact sound_rewritten).1
  obtain ⟨written, t', hleaves, hsound, hscene⟩ := @exists_scene_rebuilt _ rewritten hregular rfl
  have hsame : t'.signature? ["w", "components", "a-b.jsx"] =
      rewritten.signature? ["w", "components", "a-b.jsx"] :=
    (hleaves.quiet sound_rewritten hsound componentsPath_usual not_watches_usual
      (not_leftover_usual rewritten) rewritten 1).signature?_eq sound_rewritten hsound
      componentsPath_usual (by decide : suffix "a-b.jsx" = usual.settings.extension)
  refine ⟨t', ?_, hscene⟩
  rw [hsame]
  exact signature_ne_rewritten

/-- A revision between the first build and the first look is lost: whatever else happens but edits,
the session is quiet, and its last build has not read the component. A component that is put back as
it was seen is lost as well, if a rebuild has read another one in between. -/
theorem revision_lost :
    Telling usual.settings components [built] built revised ∧
    (∀ x hs, edits hs = 0 → (Session.opened usual components imported revised).run hs = x →
      x.scene.Quiet usual.settings components ∧ ¬ x.scene.UpToDate usual.settings components) ∧
    rewritten.signature? ["w", "components", "a-b.jsx"] ≠
      revised.signature? ["w", "components", "a-b.jsx"] ∧
    overtaken.scene.tree.signature? ["w", "components", "a-b.jsx"] ≠
      revised.signature? ["w", "components", "a-b.jsx"] ∧
    (overtaken.step (.edit revised)).scene.Quiet usual.settings components ∧
    ¬ (overtaken.step (.edit revised)).scene.UpToDate usual.settings components := by
  have hnames : usual.settings.Names "a-b.jsx" :=
    ⟨by decide, fun h => absurd (Data.Value.text.inj h) (by decide)⟩
  obtain ⟨t', hsignature, hscene⟩ := exists_scene_overtaken
  have hedited : (overtaken.step (.edit revised)).scene = { overtaken.scene with tree := revised } := rfl
  rw [hedited, hscene]
  refine ⟨telling_revised, ?_, signature_ne_rewritten, hsignature, ⟨fun _ => rfl, rfl⟩, ?_⟩
  · rintro x hs hnone rfl
    have hregular : (Session.opened usual components imported revised).Regular usual.settings
        components := Session.regular_opened rfl sound_revised components imported
    obtain ⟨hquiet, htree, hread, -⟩ := hregular.quiet ⟨fun _ => rfl, rfl⟩ hnone
    refine ⟨hquiet, ?_⟩
    simp only [Session.scene, htree, hread]
    apply Scene.not_upToDate componentsPath_usual sound_imported hnames at?_revised at?_imported
    decide
  · apply Scene.not_upToDate componentsPath_usual sound_rewritten hnames at?_revised at?_rewritten
    decide

end ElementBundle.Project
