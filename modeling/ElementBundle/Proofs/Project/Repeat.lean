import ElementBundle.Project.Guard
import ElementBundle.Proofs.Project.Discover
import ElementBundle.Proofs.Project.Policy

/-! # Building again

A build that has written its bundle is followed by another one, and no component has changed. The
second build comes to the same result, and finds the bundle of the first, unless the first one has
changed the component files itself. It can do so in two ways: the bundle lies among the components
under a name that discovery does not know for the bundle's, or a component has the name of the
temporary file.
-/

namespace ElementBundle.Project

open ElementBundle.Component ElementBundle.Disk ElementBundle.Text

theorem not_mem_normalParts {done ps : List String} (h : ".." ∉ done) :
    ".." ∉ normalParts done ps := by
  induction ps generalizing done with
  | nil => simpa [normalParts] using h
  | cons p ps ih =>
    rw [normalParts]
    split
    · exact ih fun hmem => h (List.mem_of_mem_tail hmem)
    · rename_i hp
      exact ih (by simp [h, Ne.symm hp])

theorem Settings.not_mem_componentsPath {s : Settings} {directory : Path}
    (h : s.componentsPath = .ok directory) : ".." ∉ directory.parts := by
  unfold Settings.componentsPath at h
  split at h
  · cases h
    exact not_mem_normalParts (by simp)
  · cases h

/-! ## Mistaken files -/

/-- A file at this path is taken for a component. -/
def Settings.Mistakes (s : Settings) (t : Tree) (path : Path) : Prop :=
  ∃ directory name, s.componentsPath = .ok directory ∧
    t.place path = .ok (directory.parts ++ [name]) ∧ s.Names name

def Settings.Discovers (s : Settings) (t : Tree) (path : Path) : Prop :=
  ∃ directory name files, s.componentsPath = .ok directory ∧
    t.place path = .ok (directory.parts ++ [name]) ∧ s.discover t = .ok files ∧ name ∈ files

theorem not_mistakes_of_plain {s : Settings} {t : Tree} {path : Path} {output : String}
    (hpath : s.outputPath = .ok path) (houtput : s.output = .text output)
    (hplain : partsOf output = [output]) : ¬ s.Mistakes t path := by
  rintro ⟨directory, name, hdirectory, hplace, hnamed⟩
  have hslash : output.toList.head? ≠ some '/' := by
    intro hhead
    have hmem : output ∈ partsOf output := by rw [hplain]; simp
    obtain ⟨hmem, -⟩ := List.mem_filter.1 hmem
    obtain ⟨piece, hpiece, rfl⟩ := List.mem_map.1 hmem
    rw [String.toList_ofList] at hhead
    exact absurd (not_mem_splitWhere hpiece '/' (List.mem_of_mem_head? hhead)) (by decide)
  obtain rfl : path = ⟨directory.parts ++ [output]⟩ := by
    rw [Settings.outputPath, hdirectory, houtput] at hpath
    simpa [Path.join, hslash, hplain, eq_comm] using hpath
  by_cases hdots : output = ".."
  · subst hdots
    rw [Tree.place, Tree.walk_append] at hplace
    cases hwalk : t.walk [] directory.parts with
    | error r => simp [hwalk, Except.bind] at hplace
    | ok place =>
      obtain rfl := Tree.walk_of_not_mem_dots (Settings.not_mem_componentsPath hdirectory) hwalk
      simp only [hwalk, Except.bind, Tree.walk, List.nil_append, if_true] at hplace
      split at hplace
      · cases hplace
      · cases hplace
      · have hlength := congrArg List.length (Except.ok.inj hplace)
        simp at hlength
  · have hparts : ".." ∉ directory.parts ++ [output] := by
      simp [Settings.not_mem_componentsPath hdirectory, Ne.symm hdots]
    have hname := Tree.walk_of_not_mem_dots hparts hplace
    simp only [List.nil_append, List.append_cancel_left_eq, List.cons.injEq, and_true] at hname
    exact hnamed.2 (hname ▸ houtput)

/-- The component files and the bundle are what they were, and a bundle can be written. -/
structure Settings.Untouched (s : Settings) (t t' : Tree) (path : Path) : Prop where
  components : ∀ directory name bytes, s.componentsPath = .ok directory →
    (s.Holds directory t' name bytes ↔ s.Holds directory t name bytes)
  directory : ∀ directory, s.componentsPath = .ok directory → t'.isDirectory directory = true
  bundle : t'.read path = t.read path
  spare : t'.get (temporary path) ≠ .ok .directory

/-! ## The first build -/

/-- What a build has done that wrote its bundle into a directory under a name. -/
structure Wrote (s : Settings) (t t₁ : Tree) (r : Result) (place : List String) (name : String) :
    Prop where
  surveyed : s.Surveyed t { r with written := false }
  written : r.written = true
  allowed : ¬ (r.failures ≠ [] ∧ s.onError = .abort)
  site : Site t r.path place name
  spare : t.at? (place ++ [name ++ ".tmp"]) ≠ some .directory
  sound : t₁.Sound
  after : ∃ stamp, ∀ q, t₁.at? q =
    if q = place ++ [name] then some (.file (encodeUtf8 r.output) stamp)
    else if q = place ++ [name ++ ".tmp"] then none else t.at? q

theorem exists_wrote {s : Settings} {p : Pipeline} {stage : Stage} {t : Tree} {quiet : Bool}
    {r : Result} (ht : t.Sound) (hr : (s.build p stage t quiet false).outcome = .ok r)
    (hwritten : r.written = true) :
    (s.build p stage t quiet false).stage = r.stage ∧
      ∃ place name, Wrote s t (s.build p stage t quiet false).tree r place name := by
  rcases build_cases s p stage t quiet with ⟨fault, hfault⟩ | ⟨r₀, hr₀⟩
  · cases (hfault false none).symm.trans hr
  · obtain ⟨houtcome, hstage, htree⟩ := hr₀.build_eq p stage quiet false none
    rw [hstage, htree]
    have hconcludes := concludes (houtcome.symm.trans hr)
    generalize (s.conclude none quiet false t r₀).stage = last at hconcludes
    generalize (s.conclude none quiet false t r₀).tree = t₁ at hconcludes
    cases hconcludes with
    | withheld failed => cases hr₀.written.symm.trans hwritten
    | written allowed write =>
      obtain ⟨place, name, site, hspare, hsound, hat⟩ :=
        exists_site_of_writeAtomically ht hr₀.previous write
      have hsame : { r₀ with written := false } = r₀ := by
        rw [← hr₀.written]
      exact ⟨hr₀.stage.symm, place, name, hsame.symm ▸ hr₀, rfl, allowed, site, hspare, hsound, _, hat⟩

section
variable {s : Settings} {t t₁ t' : Tree} {r : Result} {place : List String} {name : String}
  {directory : Path}

theorem Wrote.holds_iff (w : Wrote s t t₁ r place name) {file : String} {bytes : List UInt8} :
    s.Holds directory t₁ file bytes ↔
      if directory.parts ++ [file] = place ++ [name] then
        s.Names file ∧ bytes = encodeUtf8 r.output
      else directory.parts ++ [file] ≠ place ++ [name ++ ".tmp"] ∧ s.Holds directory t file bytes := by
  obtain ⟨stamp, hat⟩ := w.after
  constructor
  · rintro ⟨hnamed, stamp', hfile⟩
    rw [hat] at hfile
    split
    · rename_i h
      rw [if_pos h] at hfile
      cases hfile
      exact ⟨hnamed, rfl⟩
    · rename_i h
      rw [if_neg h] at hfile
      split at hfile
      · cases hfile
      · rename_i h'
        exact ⟨h', hnamed, stamp', hfile⟩
  · split
    · rename_i h
      rintro ⟨hnamed, rfl⟩
      exact ⟨hnamed, stamp, by rw [hat, if_pos h]⟩
    · rename_i h
      rintro ⟨hne, hnamed, stamp', hfile⟩
      exact ⟨hnamed, stamp', by rw [hat, if_neg h, if_neg hne, hfile]⟩

/-- The build leaves the component files alone if neither of its own files is taken for one. -/
theorem Wrote.holds_iff_of_not_mistakes (w : Wrote s t t₁ r place name)
    (hdirectory : s.componentsPath = .ok directory) (hbundle : ¬ s.Mistakes t r.path)
    (hspare : ¬ (s.Mistakes t (temporary r.path) ∧ t.exists (temporary r.path) = true))
    {file : String} {bytes : List UInt8} :
    s.Holds directory t₁ file bytes ↔ s.Holds directory t file bytes := by
  rw [w.holds_iff]
  split
  · rename_i h
    have hmistakes : ¬ s.Names file :=
      fun hnamed => hbundle ⟨directory, file, hdirectory, h ▸ w.site.bundle, hnamed⟩
    exact ⟨fun h => absurd h.1 hmistakes, fun h => absurd h.named hmistakes⟩
  · refine and_iff_right_of_imp fun hholds h => hspare ?_
    obtain ⟨stamp, hfile⟩ := hholds.file
    refine ⟨⟨directory, file, hdirectory, h ▸ w.site.spare, hholds.named⟩, ?_⟩
    rw [h] at hfile
    simp [Tree.exists, Disk.Tree.get, w.site.spare, hfile]

theorem Wrote.replaced (w : Wrote s t t₁ r place name) :
    Replaced t t₁ r.path (encodeUtf8 r.output) := by
  obtain ⟨stamp, hat⟩ := w.after
  exact w.site.replaced w.spare hat

theorem Wrote.previousText_eq (w : Wrote s t t₁ r place name)
    (hread : t'.read r.path = t₁.read r.path) : previousText t' r.path = .ok (some r.output) := by
  obtain ⟨directory, files, -, -, hreports⟩ := w.surveyed.reports
  have houtput : r.output = bundleText r.reports := w.surveyed.output
  have hclean : '\r' ∉ r.output := by
    have hmap : r.reports = (files.map fun name => (⟨directory.parts ++ [name]⟩ : Path)).map
        fun path => (s.attempt t path).report := by
      rw [List.map_map]
      exact hreports
    rw [houtput, hmap]
    exact return_not_mem_bundleText
  simp only [previousText, hread, w.replaced.content, decodeUtf8_encodeUtf8,
    unifyNewlines_of_not_mem hclean]

theorem Wrote.directory_stays (w : Wrote s t t₁ r place name) {q : List String}
    (h : t.at? q = some .directory) : t₁.at? q = some .directory := by
  obtain ⟨stamp, hat⟩ := w.after
  refine w.site.directories_stay w.spare (fun q hbundle hspare => ?_) q h
  rw [hat, if_neg hbundle, if_neg hspare]

theorem Wrote.untouched (w : Wrote s t t₁ r place name) : s.Untouched t₁ t₁ r.path := by
  refine ⟨fun _ _ _ _ => Iff.rfl, fun directory hdirectory => ?_, rfl, ?_⟩
  · obtain ⟨directory', files, hdirectory', hfiles, -⟩ := w.surveyed.reports
    obtain rfl := Except.ok.inj (hdirectory.symm.trans hdirectory')
    have hthere := ((discover_eq_ok_iff hdirectory).1 hfiles).1
    simp only [Tree.isDirectory, Disk.Tree.get] at hthere ⊢
    cases hplace : t.place directory with
    | error refusal => simp [hplace] at hthere
    | ok q =>
      have hplace' : t₁.place directory = .ok q :=
        Tree.walk_of_directories (fun _ h => w.directory_stays h) hplace
      rw [hplace] at hthere
      rw [hplace']
      cases hentry : t.at? q with
      | none => simp [hentry] at hthere
      | some entry =>
        cases entry with
        | file => simp [hentry] at hthere
        | directory => simp [w.directory_stays hentry]
  · intro h
    have hclean := w.replaced.clean
    simp [Tree.exists, h] at hclean

/-! ## The second build -/

theorem Wrote.repeats (w : Wrote s t t₁ r place name) (ht : t.Sound) (ht' : t'.Sound)
    (untouched : s.Untouched t₁ t' r.path) (hbundle : ¬ s.Mistakes t r.path)
    (hspare : ¬ (s.Mistakes t (temporary r.path) ∧ t.exists (temporary r.path) = true))
    (p : Pipeline) (stage : Stage) (quiet dryRun : Bool) :
    (s.build p stage t' quiet dryRun).outcome =
      .ok { r with previous := some r.output, written := !dryRun } ∧
    (s.build p stage t' quiet dryRun).stage = r.stage := by
  obtain ⟨directory, files, hdirectory, hfiles, hreports⟩ := w.surveyed.reports
  have same : ∀ file bytes, s.Holds directory t' file bytes ↔ s.Holds directory t file bytes :=
    fun file bytes => (untouched.components directory file bytes hdirectory).trans
      (w.holds_iff_of_not_mistakes hdirectory hbundle hspare)
  have hfiles' := discover_congr ht ht' hdirectory (untouched.directory directory hdirectory) same
    hfiles
  have hsurveyed : s.Surveyed t' { r with previous := some r.output, written := false } :=
    ⟨w.surveyed.path, ⟨directory, files, hdirectory, hfiles', hreports.trans
      (reports_congr ht ht' hdirectory hfiles same).symm⟩, w.surveyed.output,
      w.previousText_eq untouched.bundle, w.surveyed.stage, rfl⟩
  have hallowed : ¬ (Result.failures { r with previous := some r.output, written := false } ≠ [] ∧
      s.onError = .abort) := w.allowed
  obtain ⟨houtcome, hstage, -⟩ := hsurveyed.build_eq p stage quiet dryRun none
  rw [houtcome, hstage]
  cases dryRun with
  | true =>
    obtain ⟨hok, hidle, -⟩ := @conclude_of_dry s none quiet t' _ hallowed
    exact ⟨hok, hidle.trans w.surveyed.stage.symm⟩
  | false =>
    have hparent := Tree.exists_parent_of_read (untouched.bundle.trans w.replaced.content)
    obtain ⟨t₂, hwrite⟩ := exists_writeAtomically ht' hsurveyed.previous hparent untouched.spare
      (encodeUtf8 r.output)
    obtain ⟨hok, hidle, -⟩ := @conclude_of_ok s none quiet t' _ t₂ hallowed hwrite
    exact ⟨hok, hidle.trans w.surveyed.stage.symm⟩

theorem Settings.Surveyed.map_file_eq {r : Result} (hr : s.Surveyed t r) {files : List String}
    (h : s.discover t = .ok files) : r.reports.map (·.file) = files := by
  obtain ⟨directory, files', -, hfiles, hreports⟩ := hr.reports
  obtain rfl := Except.ok.inj (h.symm.trans hfiles)
  rw [hreports, List.map_map]
  conv_rhs => rw [← List.map_id files]
  refine List.map_congr_left fun name _ => ?_
  simp [file_report_attempt, Path.name]

/-- The names in the reports are the names of the component files. -/
theorem Settings.Surveyed.mem_files_iff {r : Result} (hr : s.Surveyed t r) (ht : t.Sound)
    (hdirectory : s.componentsPath = .ok directory) (file : String) :
    file ∈ r.reports.map (·.file) ↔ ∃ bytes, s.Holds directory t file bytes := by
  obtain ⟨-, files, -, hfiles, -⟩ := hr.reports
  rw [hr.map_file_eq hfiles]
  exact (discover_spec ht hdirectory hfiles).1 file

/-- A bundle that is taken for a component is discovered afterwards. -/
theorem Wrote.discovers_iff (w : Wrote s t t₁ r place name) (ht' : t'.Sound)
    (untouched : s.Untouched t₁ t' r.path) : s.Discovers t' r.path ↔ s.Mistakes t r.path := by
  constructor
  · rintro ⟨directory, file, files, hdirectory, hplace, hfiles, hmem⟩
    obtain ⟨bytes, hholds⟩ := ((discover_spec ht' hdirectory hfiles).1 file).1 hmem
    have hsame := Tree.walk_unique w.site.bundle hplace
    exact ⟨directory, file, hdirectory, hsame ▸ w.site.bundle, hholds.named⟩
  · rintro ⟨directory, file, hdirectory, hplace, hnamed⟩
    have hfiles := (discover_eq_ok_iff hdirectory).2 ⟨untouched.directory directory hdirectory, rfl⟩
    have hsame := Except.ok.inj (hplace.symm.trans w.site.bundle)
    have hholds : s.Holds directory t₁ file (encodeUtf8 r.output) := by
      rw [w.holds_iff, if_pos hsame]
      exact ⟨hnamed, rfl⟩
    refine ⟨directory, file, _, hdirectory, ?_, hfiles, ?_⟩
    · have hread := untouched.bundle.trans w.replaced.content
      cases hplace' : t'.place r.path with
      | error refusal => simp [Tree.read, Disk.Tree.get, hplace'] at hread
      | ok q => rw [Tree.walk_unique hplace' hplace]
    · exact ((discover_spec ht' hdirectory hfiles).1 file).2
        ⟨_, (untouched.components directory file _ hdirectory).2 hholds⟩

theorem exists_surveyed_of_build {p : Pipeline} {stage : Stage} {quiet dryRun : Bool}
    (hr : (s.build p stage t quiet dryRun).outcome = .ok r) :
    ∃ r₀, s.Surveyed t r₀ ∧ r.reports = r₀.reports := by
  rcases build_cases s p stage t quiet with ⟨fault, hfault⟩ | ⟨r₀, hr₀⟩
  · cases (hfault dryRun none).symm.trans hr
  · refine ⟨r₀, hr₀, ?_⟩
    exact (concludes ((hr₀.build_eq p stage quiet dryRun none).1.symm.trans hr)).reports_eq

/-- A build that has changed the component files itself is not repeated. -/
theorem Wrote.reports_ne (w : Wrote s t t₁ r place name) (ht : t.Sound) (ht' : t'.Sound)
    (untouched : s.Untouched t₁ t' r.path)
    (h : (s.Mistakes t r.path ∧ t.exists r.path = false) ∨
      (s.Mistakes t (temporary r.path) ∧ t.exists (temporary r.path) = true))
    {p : Pipeline} {stage : Stage} {quiet dryRun : Bool} {r' : Result}
    (hr' : (s.build p stage t' quiet dryRun).outcome = .ok r') : r'.reports ≠ r.reports := by
  intro heq
  obtain ⟨r₀, hr₀, hreports⟩ := exists_surveyed_of_build hr'
  have same : ∀ directory file, s.componentsPath = .ok directory →
      ((∃ bytes, s.Holds directory t₁ file bytes) ↔ ∃ bytes, s.Holds directory t file bytes) := by
    intro directory file hdirectory
    have hlater := hr₀.mem_files_iff ht' hdirectory file
    rw [← hreports, heq] at hlater
    calc
      (∃ bytes, s.Holds directory t₁ file bytes) ↔ ∃ bytes, s.Holds directory t' file bytes :=
        exists_congr fun bytes => (untouched.components directory file bytes hdirectory).symm
      _ ↔ file ∈ r.reports.map (·.file) := hlater.symm
      _ ↔ ∃ bytes, s.Holds directory t file bytes := w.surveyed.mem_files_iff ht hdirectory file
  rcases h with ⟨⟨directory, file, hdirectory, hplace, hnamed⟩, hmissing⟩ |
    ⟨⟨directory, file, hdirectory, hplace, hnamed⟩, hthere⟩
  · have hsame := Except.ok.inj (hplace.symm.trans w.site.bundle)
    obtain ⟨bytes, hholds⟩ := (same directory file hdirectory).1
      ⟨_, w.holds_iff.2 ((if_pos hsame).mpr ⟨hnamed, rfl⟩)⟩
    obtain ⟨stamp, hfile⟩ := hholds.file
    simp [Tree.exists, Disk.Tree.get, hplace, hfile] at hmissing
  · have hsame := Except.ok.inj (hplace.symm.trans w.site.spare)
    have hnot := w.spare
    rw [← hsame] at hnot
    have hholds : ∃ bytes, s.Holds directory t file bytes := by
      cases hentry : t.at? (directory.parts ++ [file]) with
      | none => simp [Tree.exists, Disk.Tree.get, hplace, hentry] at hthere
      | some entry =>
        cases entry with
        | directory => exact absurd hentry hnot
        | file bytes stamp => exact ⟨bytes, hnamed, stamp, hentry⟩
    obtain ⟨bytes, hafter⟩ := (same directory file hdirectory).2 hholds
    rw [w.holds_iff, if_neg (hsame ▸ append_tmp_ne_bundle place name)] at hafter
    exact hafter.1 hsame

end

/-- A second build on the same engine repeats the first, as long as the first one has left the
components as they were. A bundle spelled as one name is never taken for a component; spelled as a path
it may be, and exactly then it is discovered. -/
theorem build_repeats {e : Engine} {t : Tree} {quiet : Bool} {first : Pass} {r : Result}
    (ht : t.Sound) (hfirst : e.build t quiet false = first) (hr : first.outcome = .ok r)
    (hwritten : r.written = true) :
    first.tree.Sound ∧ e.settings.Untouched first.tree first.tree r.path ∧
    (∀ output, e.settings.output = .text output → partsOf output = [output] →
      ¬ e.settings.Mistakes t r.path) ∧
    ∀ t', t'.Sound → e.settings.Untouched first.tree t' r.path →
      (e.settings.Discovers t' r.path ↔ e.settings.Mistakes t r.path) ∧
      ∀ quiet' dryRun second,
        (e.after first).build t' quiet' dryRun = second →
        (¬ e.settings.Mistakes t r.path →
          ¬ (e.settings.Mistakes t (temporary r.path) ∧ t.exists (temporary r.path) = true) →
          second.outcome = .ok { r with previous := some r.output, written := !dryRun } ∧
            second.stage = first.stage) ∧
        ((e.settings.Mistakes t r.path ∧ t.exists r.path = false) ∨
            (e.settings.Mistakes t (temporary r.path) ∧ t.exists (temporary r.path) = true) →
          ∀ r', second.outcome = .ok r' → r'.reports ≠ r.reports) := by
  subst hfirst
  obtain ⟨hstage, place, name, w⟩ := exists_wrote ht hr hwritten
  have hlast : (e.build t quiet false).stage = r.stage := hstage
  refine ⟨w.sound, w.untouched, ?_, ?_⟩
  · intro output houtput hplain
    exact not_mistakes_of_plain w.surveyed.path houtput hplain
  · intro t' ht' untouched
    refine ⟨w.discovers_iff ht' untouched, ?_⟩
    rintro quiet' dryRun second rfl
    refine ⟨fun hbundle hspare => ?_, fun h r' hr' => w.reports_ne ht ht' untouched h hr'⟩
    rw [hlast]
    exact w.repeats ht ht' untouched hbundle hspare _ _ quiet' dryRun

/-- An engine whose settings are all left as they are. -/
def usual : Engine :=
  { settings := { root := ⟨["w"]⟩ } }

/-- A project with one component, whose lines end in carriage returns. -/
def imported : Tree :=
  { entries :=
      [(["w"], .directory), (["w", "components"], .directory),
        (["w", "components", "a-b.jsx"],
          .file (encodeUtf8 "class A \x7b\r\n// <a-b x! />\r\n\x7d".toList) 0)]
    nextStamp := 1 }

theorem build_repeats_imported :
    imported.Sound ∧
    ∃ r, (usual.build imported false false).outcome = .ok r ∧
      r.written = true ∧ r.failures = [] ∧ r.reports.length = 1 ∧
      ((usual.after (usual.build imported false false)).build
          (usual.build imported false false).tree true false).outcome =
        .ok { r with previous := some r.output } := by
  have hsound : imported.Sound := ⟨by decide, by decide, by decide⟩
  have hreturns : (usual.build imported false false).outcome.toOption.any (fun r =>
      r.written = true ∧ r.failures = [] ∧ r.reports.length = 1 ∧
        r.path = ⟨["w", "components", "compiled.js"]⟩) = true := by
    decide +kernel
  generalize hfirst : usual.build imported false false = first at *
  cases hr : first.outcome with
  | error fault => rw [hr] at hreturns; cases hreturns
  | ok r =>
    rw [hr] at hreturns
    obtain ⟨hwritten, hfailures, hlength, hpath⟩ := of_decide_eq_true hreturns
    obtain ⟨htree, huntouched, hplain, hsecond⟩ := build_repeats hsound hfirst hr hwritten
    obtain ⟨-, hbuild⟩ := hsecond first.tree htree huntouched
    have hspare : imported.exists (temporary r.path) = false := by rw [hpath]; decide
    obtain ⟨hsame, -⟩ := (hbuild true false _ rfl).1 (hplain "compiled.js" rfl (by decide))
      (by simp [hspare])
    refine ⟨hsound, r, rfl, hwritten, hfailures, hlength, hsame.trans ?_⟩
    rw [hwritten]
    rfl

/-- Settings that spell the name of the bundle as a path. -/
def dotted : Settings :=
  { root := ⟨["w"]⟩, output := .text "./all.jsx" }

def vacant : Tree :=
  { entries := [(["w"], .directory), (["w", "components"], .directory)] }

/-- The first build finds no component, and the second one the bundle. -/
theorem build_takes_bundle :
    (∀ depth, Settings.make ⟨["w"]⟩ [(.output, .text "./all.jsx")] depth = .ok dotted) ∧
      (dotted.build {} .idle vacant false false).outcome.toOption.map
        (fun r => (r.written, r.stage, r.reports)) = some (true, .idle, []) ∧
      dotted.discover (dotted.build {} .idle vacant false false).tree = .ok ["all.jsx"] ∧
      ∀ p r', (dotted.build p .idle (dotted.build {} .idle vacant false false).tree false
        false).outcome = .ok r' → r'.reports.map (·.file) = ["all.jsx"] := by
  have hfound : dotted.discover (dotted.build {} .idle vacant false false).tree = .ok ["all.jsx"] := by
    decide +kernel
  refine ⟨fun _ => rfl, by decide +kernel, hfound, fun p r' hr' => ?_⟩
  obtain ⟨r₀, hr₀, hreports⟩ := exists_surveyed_of_build hr'
  rw [hreports, hr₀.map_file_eq hfound]

end ElementBundle.Project
