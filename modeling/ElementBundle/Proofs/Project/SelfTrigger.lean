import ElementBundle.Proofs.Project.Watching

/-! # Rebuilds that cause rebuilds

A rebuild writes the bundle, and a watcher that looks at the bundle takes that for an edit. So a
bundle among the components with their extension is built again and again after one edit, although
discovery leaves it out. A bundle that no look sees causes nothing: then each edit pays for one
rebuild, and for a second one where a look can see the temporary file.
-/

namespace ElementBundle.Project

open ElementBundle.Disk ElementBundle.Text

def Settings.Leftover (s : Settings) (t : Tree) : Prop :=
  ∃ path bytes, s.outputPath = .ok path ∧ s.Watches t (temporary path) ∧
    t.read (temporary path) = .ok bytes

section
variable {s : Settings} {directory : Path} {t t' : Tree} {written : Bool}

theorem Settings.leftover_of_signature {path : Path} {name : String}
    (hdirectory : s.componentsPath = .ok directory) (hpath : s.outputPath = .ok path)
    (hplace : t.place (temporary path) = .ok (directory.parts ++ [name]))
    (hname : suffix name = s.extension)
    (hthere : (t.signature? (directory.parts ++ [name])).isSome) : s.Leftover t := by
  obtain ⟨⟨stamp, size⟩, hsignature⟩ := Option.isSome_iff_exists.1 hthere
  obtain ⟨bytes, hfile, -⟩ := Tree.signature?_eq_some_iff.1 hsignature
  refine ⟨path, bytes, hpath, ⟨directory, name, hdirectory, hplace, hname⟩, ?_⟩
  simp [Tree.read, Disk.Tree.get, hplace, hfile]

theorem Settings.Leaves.mem_poll_iff (h : s.Leaves t written t') (ht : t.Sound) (ht' : t'.Sound)
    (hstamped : t.Stamped) (hdirectory : s.componentsPath = .ok directory) (name : String) :
    name ∈ ((Watcher.start t directory s.extension).poll t').1 ↔
      suffix name = s.extension ∧ ∃ path, s.outputPath = .ok path ∧
        (written = true ∧ t.place path = .ok (directory.parts ++ [name]) ∨
          t.place (temporary path) = .ok (directory.parts ++ [name]) ∧
            (t.signature? (directory.parts ++ [name])).isSome ∧
            t'.at? (directory.parts ++ [name]) = none) := by
  rw [Project.mem_poll_iff ht ht' (Settings.not_mem_componentsPath hdirectory)]
  refine and_congr_right fun _ => ⟨h.of_signature_ne, ?_⟩
  rintro ⟨path, hpath, ⟨rfl, hplace⟩ | ⟨hplace, hthere, hgone⟩⟩
  · exact h.signature_bundle hstamped hpath hplace
  · rw [Tree.signature?_of_none hgone]
    exact Option.isSome_iff_ne_none.1 hthere

theorem Settings.Leaves.leftover (h : s.Leaves t written t') (hleft : s.Leftover t') :
    s.Leftover t := by
  obtain ⟨path, bytes, hpath, ⟨directory, name, hdirectory, hplace, hname⟩, hread⟩ := hleft
  have gone {place : List String} {bundle : String} {path' : Path} (hpath' : s.outputPath = .ok path')
      (site : Site t path' place bundle) : t'.at? (place ++ [bundle ++ ".tmp"]) ≠ none := by
    obtain rfl := Except.ok.inj (hpath.symm.trans hpath')
    intro hnone
    have hsame := Tree.walk_unique hplace site.spare
    rw [← hsame] at hnone
    simp [Tree.read, Disk.Tree.get, hplace, hnone] at hread
  cases h with
  | alone => exact ⟨path, bytes, hpath, ⟨directory, name, hdirectory, hplace, hname⟩, hread⟩
  | cleaned path_eq site after => exact absurd (by rw [after, if_pos rfl]) (gone path_eq site)
  | @replaced _ _ place bundle _ path_eq site after =>
    refine absurd ?_ (gone path_eq site)
    rw [after, if_neg (append_tmp_ne_bundle place bundle), if_pos rfl]

/-- If no look sees the bundle, a look after a build finds what it would have found before, unless
the build has removed a temporary file. -/
theorem Settings.Leaves.lookup_eq_or_leftover (h : s.Leaves t written t') (ht : t.Sound)
    (ht' : t'.Sound) (hdirectory : s.componentsPath = .ok directory)
    (apart : ∀ t path, s.outputPath = .ok path → ¬ s.Watches t path) :
    (∀ name, (snapshot t' directory s.extension).lookup name =
        (snapshot t directory s.extension).lookup name) ∨
      s.Leftover t ∧ ¬ s.Leftover t' := by
  have hdots := Settings.not_mem_componentsPath hdirectory
  by_cases same : ∀ name, (snapshot t' directory s.extension).lookup name =
      (snapshot t directory s.extension).lookup name
  · exact .inl same
  · obtain ⟨name, hne⟩ := not_forall.1 same
    rw [lookup_snapshot ht hdots, lookup_snapshot ht' hdots] at hne
    by_cases hname : suffix name = s.extension
    · rw [if_pos hname, if_pos hname] at hne
      obtain ⟨path, hpath, ⟨-, hplace⟩ | ⟨hplace, hthere, hgone⟩⟩ := h.of_signature_ne (Ne.symm hne)
      · exact absurd ⟨directory, name, hdirectory, hplace, hname⟩ (apart t path hpath)
      · refine .inr ⟨?_, ?_⟩
        · exact Settings.leftover_of_signature hdirectory hpath hplace hname hthere
        · rintro ⟨path', bytes, hpath', ⟨directory', name', -, hplace', -⟩, hread⟩
          obtain rfl := Except.ok.inj (hpath.symm.trans hpath')
          rw [Tree.walk_unique hplace hplace'] at hgone
          simp [Tree.read, Disk.Tree.get, hplace', hgone] at hread
    · rw [if_neg hname, if_neg hname] at hne
      exact absurd rfl hne

end

/-! ## Each rebuild is paid for -/

/-- What is put by for rebuilds: for one that is pending, for what the next look will notice, and for
a temporary file. -/
structure Scene.Holds (x : Scene) (s : Settings) (directory : Path) (p d l : Nat) : Prop where
  pending : x.pending = true → 1 ≤ p
  differs : ¬ x.Seen s directory → 1 ≤ d
  leftover : s.Leftover x.tree → 1 ≤ l

section
variable {s : Settings} {directory : Path} {c : Nat}

/-- An edit pays for what it may change; a rebuild takes what was put by for it. -/
theorem Turns.holds {x y : Scene} {a : Happening} {p d l : Nat} (h : Turns s directory x a y)
    (hx : x.Holds s directory p d l) (hl : l ≤ c) (hsound : x.tree.Sound)
    (hdirectory : s.componentsPath = .ok directory)
    (apart : ∀ t path, s.outputPath = .ok path → ¬ s.Watches t path)
    (hc : ∀ t, s.Leftover t → 1 ≤ c) :
    ∃ p' d' l', y.Holds s directory p' d' l' ∧ l' ≤ c ∧
      y.rebuilds + (p' + d' + l') ≤ x.rebuilds + (p + d + l) + (1 + c) * edits [a] := by
  obtain ⟨hpending, hdiffers, hleftover⟩ := hx
  cases h with
  | edit sound =>
    refine ⟨p, 1, c, ⟨hpending, fun _ => Nat.le_refl 1, hc _⟩, Nat.le_refl c, ?_⟩
    simp only [edits, List.countP_cons_of_pos, List.countP_nil]
    omega
  | unchanged same =>
    refine ⟨p, 0, l, ⟨hpending, fun hnot => absurd (fun _ => rfl) hnot, hleftover⟩, hl, ?_⟩
    dsimp only
    omega
  | noticed differs =>
    have := hdiffers differs
    refine ⟨1, 0, l, ⟨fun _ => Nat.le_refl 1, fun hnot => absurd (fun _ => rfl) hnot, hleftover⟩, hl, ?_⟩
    dsimp only
    omega
  | passed span => exact ⟨p, d, l, ⟨hpending, hdiffers, hleftover⟩, hl, by omega⟩
  | rebuilt span pending leaves sound =>
    have hp := hpending pending
    rcases leaves.lookup_eq_or_leftover hsound sound hdirectory apart with same | ⟨hthere, hgone⟩
    · refine ⟨0, d, l, ⟨nofun, ?_, fun h => hleftover (leaves.leftover h)⟩, hl, ?_⟩
      · intro hnot
        apply hdiffers
        intro hseen
        exact hnot fun name => (hseen name).trans (same name).symm
      · dsimp only
        omega
    · have hleft := hleftover hthere
      refine ⟨0, 1, 0, ⟨nofun, fun _ => Nat.le_refl 1, fun h => absurd h hgone⟩, Nat.zero_le c, ?_⟩
      dsimp only
      omega

theorem Session.Regular.rebuilds_le {x : Session} {p d l : Nat} (hx : x.Regular s directory)
    (holds : x.scene.Holds s directory p d l) (hl : l ≤ c)
    (hdirectory : s.componentsPath = .ok directory)
    (apart : ∀ t path, s.outputPath = .ok path → ¬ s.Watches t path)
    (hc : ∀ t, s.Leftover t → 1 ≤ c) {hs : List Happening} (sound : ∀ t, .edit t ∈ hs → t.Sound) :
    (x.run hs).rebuilds ≤ x.rebuilds + (p + d + l) + (1 + c) * edits hs := by
  induction hs generalizing x p d l with
  | nil =>
    show x.rebuilds ≤ _
    omega
  | cons a hs ih =>
    obtain ⟨hstep, turns⟩ := hx.step a fun t ht => sound t (ht ▸ List.mem_cons_self)
    obtain ⟨p', d', l', holds', hl', hpaid⟩ := turns.holds holds hl hx.sound hdirectory apart hc
    have hrest := ih hstep holds' hl' fun t ht => sound t (List.mem_cons_of_mem a ht)
    rw [← List.singleton_append, edits_append, Nat.mul_add]
    calc
      (x.run ([a] ++ hs)).rebuilds = ((x.step a).run hs).rebuilds := rfl
      _ ≤ (x.step a).rebuilds + (p' + d' + l') + (1 + c) * edits hs := hrest
      _ ≤ x.rebuilds + (p + d + l) + (1 + c) * edits [a] + (1 + c) * edits hs :=
        Nat.add_le_add_right hpaid _
      _ = _ := Nat.add_assoc _ _ _

end

/-! ## A bundle that is seen -/

/-- A rebuild is due within a span. It writes a bundle that looks see and that is not taken for a
component. Else everything has been seen. -/
structure Session.Loops (x : Session) (s : Settings) (directory : Path) (span : Int) : Prop where
  regular : x.Regular s directory
  seen : x.scene.Seen s directory
  stamped : x.watch.tree.Stamped
  due : ∃ due, x.watch.debouncer.due = some due ∧ due ≤ x.watch.time + span
  delay : x.watch.debouncer.delay ≤ span
  writes : ∃ r, (s.build x.watch.engine.pipeline x.watch.engine.stage x.watch.tree true
      false).outcome = .ok r ∧ r.written = true ∧
    s.Watches x.watch.tree r.path ∧ ¬ s.Mistakes x.watch.tree r.path ∧
    ¬ (s.Mistakes x.watch.tree (temporary r.path) ∧
      x.watch.tree.exists (temporary r.path) = true)

section
variable {s : Settings} {directory : Path} {t t₁ : Tree} {r : Result} {place : List String}
  {name : String}

/-- The paths of a bundle that has been written lead where they did, so the next build writes it
again. -/
theorem Wrote.again (w : Wrote s t t₁ r place name) (ht : t.Sound)
    (hwatches : s.Watches t r.path) (hbundle : ¬ s.Mistakes t r.path)
    (hspare : ¬ (s.Mistakes t (temporary r.path) ∧ t.exists (temporary r.path) = true))
    (p : Component.Pipeline) (stage : Stage) :
    ∃ r', (s.build p stage t₁ true false).outcome = .ok r' ∧ r'.written = true ∧
      s.Watches t₁ r'.path ∧ ¬ s.Mistakes t₁ r'.path ∧
      ¬ (s.Mistakes t₁ (temporary r'.path) ∧ t₁.exists (temporary r'.path) = true) := by
  obtain ⟨hok, -⟩ := w.repeats ht w.sound w.untouched hbundle hspare p stage true false
  refine ⟨_, hok, rfl, ?_, ?_, ?_⟩
  · obtain ⟨directory, file, hdirectory, hplace, hname⟩ := hwatches
    refine ⟨directory, file, hdirectory, ?_, hname⟩
    exact Tree.walk_of_directories (fun _ h => w.directory_stays h) hplace
  · rintro ⟨directory, file, hdirectory, hplace, hnamed⟩
    apply hbundle
    have hsame := Tree.walk_unique w.site.bundle hplace
    exact ⟨directory, file, hdirectory, hsame ▸ w.site.bundle, hnamed⟩
  · rintro ⟨-, hthere⟩
    exact Bool.false_ne_true (w.replaced.clean.symm.trans hthere)

/-- The look behind a rebuild notices the bundle, and so the next rebuild is due. -/
theorem Session.Loops.round {x : Session} {span : Int} (h : x.Loops s directory span)
    (hdirectory : s.componentsPath = .ok directory) :
    (x.run [.wait span, .look]).Loops s directory span ∧
      (x.run [.wait span, .look]).rebuilds = x.rebuilds + 1 := by
  obtain ⟨hregular, hseen, hstamped, ⟨due, hdue, hle⟩, hdelay, r, hr, hwritten, hwatches, hbundle,
    hspare⟩ := h
  have hdots := Settings.not_mem_componentsPath hdirectory
  have hfire : x.watch.debouncer.fire? (x.watch.time + span) =
      some (due, x.watch.debouncer.cancel) := by
    simp [Debouncer.fire?, hdue, hle]
  obtain ⟨-, place, name, w⟩ := exists_wrote hregular.sound hr hwritten
  obtain ⟨hleaves, -⟩ := @build_leaves s _ hregular.sound x.watch.engine.pipeline
    x.watch.engine.stage true false none
  rw [Pass.written, hr] at hleaves
  simp only [Except.toOption, Option.any_some, hwritten] at hleaves
  have hwait := hregular.wait_of_fire? hfire
  obtain ⟨hregular₁, -⟩ := hregular.step (.wait span) fun t h => by cases h
  obtain ⟨hregular₂, turns⟩ := hregular₁.step .look fun t h => by cases h
  have hnew : ¬ (x.step (.wait span)).scene.Seen s directory := by
    obtain ⟨directory', file, hdirectory', hplace, hname⟩ := hwatches
    obtain rfl := Except.ok.inj (hdirectory.symm.trans hdirectory')
    intro hsame
    have hlater := hsame file
    rw [hwait] at hlater
    have hboth := (hseen file).symm.trans hlater
    simp only [Session.scene, lookup_snapshot hregular.sound hdots, lookup_snapshot w.sound hdots,
      if_pos hname] at hboth
    exact hleaves.signature_bundle hstamped w.surveyed.path hplace hboth
  have hlook := Watch.look_of_ne_nil fun hnil => hnew (hregular₁.seen_iff.2 hnil)
  have hnext : ((x.step (.wait span)).step .look).watch =
      { (x.step (.wait span)).watch with
        watcher := ((x.step (.wait span)).watch.watcher.poll (x.step (.wait span)).watch.tree).2
        debouncer := (x.step (.wait span)).watch.debouncer.trigger
          (x.step (.wait span)).watch.time } := hlook
  show ((x.step (.wait span)).step .look).Loops s directory span ∧
    (x.step (.wait span)).rebuilds = x.rebuilds + 1
  refine ⟨⟨hregular₂, turns.seen_of_look, ?_, ?_, ?_, ?_⟩, by rw [hwait]⟩
  · rw [hnext, hwait]
    exact hleaves.stamped hstamped
  · refine ⟨_, by rw [hnext]; rfl, ?_⟩
    rw [hnext, hwait]
    exact Int.add_le_add_left hdelay _
  · rw [hnext, hwait]
    exact hdelay
  · rw [hnext, hwait]
    exact w.again hregular.sound hwatches hbundle hspare _ _

theorem Session.Loops.rounds {x : Session} {span : Int} (h : x.Loops s directory span)
    (hdirectory : s.componentsPath = .ok directory) (n : Nat) :
    (x.run (List.replicate n [.wait span, .look]).flatten).rebuilds = x.rebuilds + n := by
  induction n generalizing x with
  | zero => rfl
  | succ n ih =>
    obtain ⟨hround, hrebuilds⟩ := h.round hdirectory
    rw [List.replicate_succ, List.flatten_cons, Session.run_append, ih hround, hrebuilds]
    omega

end

/-! ## The watch that runs -/

def results (moments : List Moment) : Nat :=
  moments.countP fun
    | .result .. => true
    | _ => false

def KeepSound (es : List Edit) : Prop :=
  ∀ t t', t.Sound → applyAll t es = .ok t' → t'.Sound

@[simp] theorem results_nil : results [] = 0 := rfl

@[simp] theorem results_result (time : Int) (r : Result) : results [.result time r] = 1 := rfl

@[simp] theorem results_tick (n : Nat) : results [.tick n] = 0 := rfl

@[simp] theorem results_event (event : Event) : results [.event event] = 0 := rfl

@[simp] theorem results_append (before after : List Moment) :
    results (before ++ after) = results before + results after :=
  List.countP_append

@[simp] theorem results_events (events : List Event) : results (events.map .event) = 0 := by
  apply List.countP_eq_zero.2
  intro m hm
  obtain ⟨event, -, rfl⟩ := List.mem_map.1 hm
  simp

@[simp] theorem results_crashed (fault : Option Fault) :
    results (fault.map .crashed).toList = 0 := by
  cases fault <;> rfl

theorem results_rebuild_le (e : Engine) (t : Tree) (time : Int) :
    results (e.rebuild t time).moments ≤ 1 := by
  unfold Engine.rebuild
  dsimp only
  split <;> simp

theorem results_look (w : Watch) : results w.look.2 = 0 := by
  unfold Watch.look
  split <;> rfl

theorem Session.watch_wait (x : Session) (span : Int) :
    (x.step (.wait span)).watch = (x.watch.wait span).1 := by
  unfold Session.step
  dsimp only
  split <;> rfl

theorem Session.results_wait_le (x : Session) (span : Int) :
    x.rebuilds + results (x.watch.wait span).2 ≤ (x.step (.wait span)).rebuilds := by
  unfold Session.step Watch.wait
  cases hfire : x.watch.debouncer.fire? (x.watch.time + span) with
  | none => simp [hfire]
  | some fired =>
    have := results_rebuild_le x.watch.engine x.watch.tree fired.1
    simp [hfire]
    omega

theorem Session.Regular.exists_front {s : Settings} {directory : Path} {x : Session}
    (hx : x.Regular s directory) {es : List Edit} {tree : Tree} (keep : KeepSound es)
    (happly : applyAll x.watch.look.1.tree es = .ok tree) :
    ∃ front, (∀ t, .edit t ∈ front → t.Sound) ∧ edits front = [es].countP (!·.isEmpty) ∧
      (x.run front).Regular s directory ∧ (x.run front).watch = { x.watch.look.1 with tree } ∧
      (x.run front).rebuilds = x.rebuilds := by
  have hlook := (hx.step .look nofun).1
  have hsound : tree.Sound := keep _ _ hlook.sound happly
  cases es with
  | nil =>
    obtain rfl := Except.ok.inj happly
    exact ⟨[.look], by simp, rfl, hlook, rfl, rfl⟩
  | cons e es =>
    refine ⟨[.look, .edit tree], by simpa using hsound, rfl, ?_, rfl, rfl⟩
    refine (hlook.step (.edit tree) ?_).1
    rintro t ⟨⟩
    exact hsound

/-- Watching is a session, with an edit at each wait at which there are some. -/
theorem Session.Regular.exists_run {s : Settings} {directory : Path} {x : Session}
    (hx : x.Regular s directory) (interval : Int) (n : Nat) {waits : List (List Edit)}
    (keep : ∀ es ∈ waits, KeepSound es) :
    ∃ hs, (∀ t, .edit t ∈ hs → t.Sound) ∧ edits hs ≤ waits.countP (!·.isEmpty) ∧
      x.rebuilds + results (x.watch.run interval n waits).moments ≤ (x.run hs).rebuilds := by
  induction waits generalizing x n with
  | nil =>
    refine ⟨[], nofun, Nat.le_refl 0, ?_⟩
    simp [Watch.run, Watched.after, Watch.stop, results_look x.watch, Session.run]
  | cons es waits ih =>
    have hwaiting : results (x.watch.look.2 ++ [.tick n]) = 0 := by
      simp [results_look x.watch]
    obtain ⟨hes, hwaits⟩ := List.forall_mem_cons.1 keep
    cases happly : applyAll x.watch.look.1.tree es with
    | error r =>
      refine ⟨[], nofun, Nat.zero_le _, ?_⟩
      simp only [Watch.run, happly, Watched.after, Watch.stop, List.append_nil, hwaiting]
      exact Nat.le_refl _
    | ok tree =>
      obtain ⟨front, hfront, hedits, hregular, hwatch, hrebuilds⟩ := hx.exists_front hes happly
      have hnext := (hregular.step (.wait interval) nofun).1
      have hwait := Session.results_wait_le (x.run front) interval
      have hthen := Session.watch_wait (x.run front) interval
      rw [hwatch] at hwait hthen
      rw [hrebuilds] at hwait
      have hcount : (es :: waits).countP (!·.isEmpty) =
          [es].countP (!·.isEmpty) + waits.countP (!·.isEmpty) := by
        rw [← List.singleton_append, List.countP_append]
      obtain ⟨hs, hsound, hle, hrest⟩ := ih hnext (n + 1) hwaits
      rw [hthen] at hrest
      generalize hresult : Watch.wait { x.watch.look.1 with tree } interval = result at hwait hrest
      obtain ⟨w, moments⟩ := result
      dsimp only at hwait hrest
      refine ⟨front ++ .wait interval :: hs, ?_, ?_, ?_⟩
      · intro t ht
        rcases List.mem_append.1 ht with ht | ht
        · exact hfront t ht
        · exact hsound t (by simpa using ht)
      · rw [edits_append, hedits, hcount]
        exact Nat.add_le_add_left hle _
      · simp only [Watch.run, happly, hresult, Watched.after]
        rw [results_append, results_append, hwaiting, Session.run_append]
        calc
          x.rebuilds + (0 + results moments + results (w.run interval (n + 1) waits).moments) ≤
              ((x.run front).step (.wait interval)).rebuilds +
                results (w.run interval (n + 1) waits).moments := by omega
          _ ≤ _ := hrest

theorem Session.rebuilds_opened_le {s : Settings} {directory : Path} {e : Engine} {c : Nat}
    (hdirectory : s.componentsPath = .ok directory) (hsettings : e.settings = s)
    (hidle : e.guard = {}) (apart : ∀ t path, s.outputPath = .ok path → ¬ s.Watches t path)
    (hc : ∀ t, s.Leftover t → 1 ≤ c) (t : Tree) {start : Tree} (hstart : start.Sound)
    {hs : List Happening} (sound : ∀ t, .edit t ∈ hs → t.Sound) :
    ((Session.opened e directory t start).run hs).rebuilds ≤ c + (1 + c) * edits hs := by
  subst hsettings
  have holds : (Session.opened e directory t start).scene.Holds e.settings directory 0 0 c :=
    ⟨nofun, fun hnot => absurd (fun _ => rfl) hnot, hc start⟩
  have hle := (Session.regular_opened hidle hstart directory t).rebuilds_le holds (Nat.le_refl c)
    hdirectory apart hc sound
  simpa [Session.opened] using hle

/-- The results of a watch are those of its first build and of the session behind it. -/
theorem results_watch_le {e : Engine} {directory : Path} (hidle : e.guard = {}) {t : Tree}
    (ht : t.Sound) (hdirectory : e.settings.componentsPath = .ok directory) (interval : Int)
    {waits : List (List Edit)} (keep : ∀ es ∈ waits, KeepSound es) :
    ∃ start hs, start.Sound ∧ (∀ t, .edit t ∈ hs → t.Sound) ∧
      edits hs ≤ waits.countP (!·.isEmpty) ∧
      results (e.watch t interval waits).moments ≤
        1 + ((Session.opened e directory t start).run hs).rebuilds := by
  have hfirst := results_rebuild_le e t 0
  have hsound : (e.rebuild t 0).tree.Sound := by
    rw [(rebuild_of_idle hidle t 0).1]
    exact (build_leaves ht e.pipeline e.stage true false none).2
  obtain ⟨hs, hedits, hcount, hrun⟩ :=
    (Session.regular_opened hidle hsound directory t).exists_run interval 1 keep
  refine ⟨_, hs, hsound, hedits, hcount, ?_⟩
  unfold Engine.watch
  cases hfault : (e.rebuild t 0).fault with
  | some fault =>
    simp only [hfault, hdirectory]
    exact Nat.le_trans hfirst (Nat.le_add_right _ _)
  | none =>
    have hopened : (Session.opened e directory t (e.rebuild t 0).tree).rebuilds = 0 := rfl
    simp only [hfault, hdirectory, Watched.after, results_append, results_event]
    rw [hopened, Nat.zero_add] at hrun
    exact Nat.add_le_add hfirst hrun

/-- A look behind a build notices the bundle if it has been written and is seen, a temporary file that
is seen and has been removed, and nothing else. If the bundle is not seen, rebuilds come from edits,
and a watch with finitely many edits ends building. If it is seen, a rebuild is followed by the next
without any edit. -/
theorem watch_selfTrigger {s : Settings} {directory : Path}
    (hdirectory : s.componentsPath = .ok directory) :
    (∀ p stage t quiet dryRun trouble, t.Sound → t.Stamped →
      ∀ pass, s.build p stage t quiet dryRun trouble = pass →
      (∀ name, name ∈ ((Watcher.start t directory s.extension).poll pass.tree).1 ↔
        suffix name = s.extension ∧ ∃ path, s.outputPath = .ok path ∧
          (pass.written = true ∧ t.place path = .ok (directory.parts ++ [name]) ∨
            t.place (temporary path) = .ok (directory.parts ++ [name]) ∧
              (t.signature? (directory.parts ++ [name])).isSome ∧
              pass.tree.at? (directory.parts ++ [name]) = none)) ∧
      ((∀ path, s.outputPath = .ok path → ¬ s.Watches t path) → ¬ s.Leftover t →
        ((Watcher.start t directory s.extension).poll pass.tree).1 = [])) ∧
    (∀ e c, e.settings = s → e.guard = {} →
      (∀ t path, s.outputPath = .ok path → ¬ s.Watches t path) → (∀ t, s.Leftover t → 1 ≤ c) →
      (∀ t start hs, start.Sound → (∀ t, .edit t ∈ hs → t.Sound) →
        ((Session.opened e directory t start).run hs).rebuilds ≤ c + (1 + c) * edits hs) ∧
      ∀ t interval waits, t.Sound → (∀ es ∈ waits, KeepSound es) →
        results (e.watch t interval waits).moments ≤
          1 + (c + (1 + c) * waits.countP (!·.isEmpty))) ∧
    ∀ (x : Session) (span : Int), x.Loops s directory span → ∀ n,
      (x.run (List.replicate n [.wait span, .look]).flatten).rebuilds = x.rebuilds + n := by
  refine ⟨?_, ?_, fun x span h => h.rounds hdirectory⟩
  · rintro p stage t quiet dryRun trouble ht hstamped pass rfl
    obtain ⟨hleaves, hsound⟩ := @build_leaves s t ht p stage quiet dryRun trouble
    have hmem := hleaves.mem_poll_iff ht hsound hstamped hdirectory
    refine ⟨hmem, fun apart hleft => List.eq_nil_iff_forall_not_mem.2 fun name hname => ?_⟩
    obtain ⟨hsuffix, path, hpath, ⟨-, hplace⟩ | ⟨hplace, hthere, -⟩⟩ := (hmem name).1 hname
    · exact apart path hpath ⟨directory, name, hdirectory, hplace, hsuffix⟩
    · exact hleft (Settings.leftover_of_signature hdirectory hpath hplace hsuffix hthere)
  · intro e c hsettings hidle apart hc
    refine ⟨fun t start hs hstart sound =>
      Session.rebuilds_opened_le hdirectory hsettings hidle apart hc t hstart sound, ?_⟩
    intro t interval waits ht keep
    subst hsettings
    obtain ⟨start, hs, hstart, sound, hedits, hresults⟩ :=
      results_watch_le hidle ht hdirectory interval keep
    have hle := Session.rebuilds_opened_le hdirectory rfl hidle apart hc t hstart sound
    have hmul := Nat.mul_le_mul_left (1 + c) hedits
    omega

/-- Settings with components and a bundle of one extension. -/
def sharing : Settings :=
  { root := ⟨["w"]⟩, extension := ".js" }

def components : Path :=
  ⟨["w", "components"]⟩

/-- A project without components, and its bundle. -/
def published : Tree :=
  { entries := [(["w"], .directory), (["w", "components"], .directory),
      (["w", "components", "compiled.js"], .file [] 0)]
    nextStamp := 1 }

def extended : Tree :=
  published.stampFile ["w", "components", "a-b.js"] (encodeUtf8 "class A \x7b\n// <a-b />\n\x7d".toList)

theorem sound_published : published.Sound :=
  ⟨by decide, by decide, by decide⟩

theorem sound_extended : extended.Sound :=
  ⟨by decide, by decide, by decide⟩

/-- The watch before anyone looks at the component. -/
def unnoticed : Session :=
  (Session.opened { settings := sharing } components vacant published).step (.edit extended)

theorem regular_unnoticed : unnoticed.Regular sharing components := by
  have hopened : (Session.opened { settings := sharing } components vacant published).Regular sharing
      components := Session.regular_opened rfl sound_published components vacant
  refine (hopened.step (.edit extended) ?_).1
  rintro t ⟨⟩
  exact sound_extended

/-- The component is noticed, and the rebuild for it writes a bundle that looks see. -/
theorem loops_noticed :
    (unnoticed.step .look).Loops sharing components (milliseconds sharing.debounce) := by
  obtain ⟨hregular, turns⟩ := regular_unnoticed.step .look nofun
  have hnew : ¬ unnoticed.scene.Seen sharing components := fun hseen =>
    absurd (hseen "a-b.js") (by decide +kernel)
  have hwatch : (unnoticed.step .look).watch = { unnoticed.watch with
      watcher := (unnoticed.watch.watcher.poll unnoticed.watch.tree).2
      debouncer := unnoticed.watch.debouncer.trigger unnoticed.watch.time } :=
    Watch.look_of_ne_nil fun hnil => hnew (regular_unnoticed.seen_iff.2 hnil)
  have hwrites : (sharing.build unnoticed.watch.engine.pipeline
      unnoticed.watch.engine.stage extended true false).outcome.toOption.any (fun r =>
        r.written = true ∧ r.path = ⟨["w", "components", "compiled.js"]⟩) = true := by
    decide +kernel
  refine ⟨hregular, turns.seen_of_look, ?_, ?_, ?_, ?_⟩
  · rw [hwatch]
    exact Tree.stamped_of_all (by decide)
  · exact ⟨_, by rw [hwatch]; rfl, by rw [hwatch]; exact Int.le_refl _⟩
  · rw [hwatch]
    exact Int.le_refl _
  · rw [hwatch]
    cases hr : (sharing.build unnoticed.watch.engine.pipeline unnoticed.watch.engine.stage extended
        true false).outcome with
    | error fault => rw [hr] at hwrites; cases hwrites
    | ok r =>
      rw [hr] at hwrites
      obtain ⟨hwritten, hpath⟩ := of_decide_eq_true hwrites
      refine ⟨r, hr, hwritten, ?_, ?_, ?_⟩
      · exact ⟨components, "compiled.js", rfl, by rw [hpath]; decide, by decide⟩
      · exact @not_mistakes_of_plain sharing extended r.path "compiled.js" (hpath ▸ rfl) rfl (by decide)
      · rintro ⟨-, hthere⟩
        rw [hpath] at hthere
        revert hthere
        decide

theorem componentsPath_usual : usual.settings.componentsPath = .ok components :=
  rfl

theorem sound_imported : imported.Sound :=
  ⟨by decide, by decide, by decide⟩

theorem outputPath_usual : usual.settings.outputPath = .ok ⟨["w", "components", "compiled.js"]⟩ :=
  rfl

theorem not_watches_usual (t : Tree) (path : Path) (hpath : usual.settings.outputPath = .ok path) :
    ¬ usual.settings.Watches t path := by
  obtain rfl := Except.ok.inj (outputPath_usual.symm.trans hpath)
  exact Settings.not_watches_of_name (by decide) (by decide)

theorem not_leftover_usual (t : Tree) : ¬ usual.settings.Leftover t := by
  rintro ⟨path, bytes, hpath, h, -⟩
  obtain rfl := Except.ok.inj (outputPath_usual.symm.trans hpath)
  exact absurd h (Settings.not_watches_of_name (by decide) (by decide))

/-- With the usual settings nothing is noticed behind a build, and there is a rebuild for an edit at
most. With one extension for all files there is a rebuild for each wait. -/
theorem watch_selfTrigger_usual :
    imported.Sound ∧ imported.Stamped ∧
    ((Watcher.start imported components ".jsx").poll
      (usual.settings.build {} .idle imported true false).tree).1 = [] ∧
    (∀ hs, (∀ t, .edit t ∈ hs → t.Sound) →
      ((Session.opened usual components imported imported).run hs).rebuilds ≤ edits hs) ∧
    ∀ n, ((unnoticed.step .look).run
      (List.replicate n [.wait (milliseconds sharing.debounce), .look]).flatten).rebuilds = n := by
  have hstamped : imported.Stamped := Tree.stamped_of_all (by decide)
  obtain ⟨hlook, hrebuilds, -⟩ := @watch_selfTrigger usual.settings components rfl
  obtain ⟨-, -, hloops⟩ := @watch_selfTrigger sharing components rfl
  refine ⟨sound_imported, hstamped, ?_, fun hs sound => ?_, fun n => ?_⟩
  · exact (hlook {} .idle imported true false none sound_imported hstamped _ rfl).2
      (not_watches_usual imported) (not_leftover_usual imported)
  · have hle := (hrebuilds usual 0 rfl rfl not_watches_usual fun t h =>
      absurd h (not_leftover_usual t)).1 imported imported hs sound_imported sound
    omega
  · rw [hloops _ _ loops_noticed n]
    exact Nat.zero_add n

/-- The bundle is noticed by the first look after it has been built, and then one edit is enough for
any number of rebuilds. -/
theorem poll_sees_bundle :
    (∀ depth, Settings.make ⟨["w"]⟩ [(.extension, .text ".js")] depth = .ok sharing) ∧
      ((Watcher.start vacant components ".js").poll
        (sharing.build {} .idle vacant true false).tree).1 = ["compiled.js"] ∧
      ∀ n, ∃ hs, edits hs = 1 ∧
        ((Session.opened { settings := sharing } components vacant published).run hs).rebuilds = n := by
  refine ⟨fun _ => rfl, by decide +kernel, fun n => ?_⟩
  refine ⟨[.edit extended, .look] ++
    (List.replicate n [.wait (milliseconds sharing.debounce), .look]).flatten, ?_, ?_⟩
  · have hnone : edits (List.replicate n [.wait (milliseconds sharing.debounce), .look]).flatten = 0 := by
      simp +contextual [edits]
    rw [edits_append, hnone]
    rfl
  · rw [Session.run_append]
    have hrounds := loops_noticed.rounds rfl n
    show ((unnoticed.step .look).run _).rebuilds = n
    rw [hrounds]
    exact Nat.zero_add n

end ElementBundle.Project
