import ElementBundle.Proofs.Component.Outcome
import ElementBundle.Proofs.Project.Composition

/-! # The stages of a build

A build tells each stage that it enters. `Leads` composes what the parts of a
build tell: every file leads from `scanning` back to `scanning`, by way of the
phases that the compiler started on it, and the policy leads to the last stage.
The phases of a file and the status in its report determine each other.
-/

namespace ElementBundle.Project

open ElementBundle.Component ElementBundle.Disk ElementBundle.Text

/-! ## Chains of transitions -/

def Event.isTransition : Event → Bool
  | .transition .. => true
  | _ => false

/-- The transitions among events go from one stage through others, without a gap. -/
def Leads (before : Stage) (events : List Event) (entered : List Stage) : Prop :=
  events.filter Event.isTransition = transitions before entered

theorem filter_transitions (before : Stage) (entered : List Stage) :
    (transitions before entered).filter Event.isTransition = transitions before entered := by
  induction entered generalizing before with
  | nil => rfl
  | cons stage entered ih =>
      rw [transitions, List.filter_cons_of_pos rfl, ih]

theorem lastStage_cons (before stage : Stage) (entered : List Stage) :
    lastStage before (stage :: entered) = lastStage stage entered := by
  simp [lastStage, List.getLast?_cons]

theorem transitions_append (before : Stage) (front back : List Stage) :
    transitions before (front ++ back) =
      transitions before front ++ transitions (lastStage before front) back := by
  induction front generalizing before with
  | nil => rfl
  | cons stage front ih =>
      rw [lastStage_cons, List.cons_append, transitions, ih]
      rfl

theorem lastStage_append (before : Stage) (front back : List Stage) :
    lastStage before (front ++ back) = lastStage (lastStage before front) back := by
  cases back with
  | nil => rw [List.append_nil]; rfl
  | cons stage back => simp [lastStage, List.getLast?_append]

theorem leads_transitions (before : Stage) (entered : List Stage) :
    Leads before (transitions before entered) entered :=
  filter_transitions before entered

theorem leads_of_none {before : Stage} {events : List Event}
    (h : ∀ e ∈ events, e.isTransition = false) : Leads before events [] := by
  apply List.filter_eq_nil_iff.2
  intro e he
  simp [h e he]

theorem Leads.append {before : Stage} {events more : List Event} {front back : List Stage}
    (h : Leads before events front) (hmore : Leads (lastStage before front) more back) :
    Leads before (events ++ more) (front ++ back) := by
  unfold Leads at h hmore ⊢
  rw [List.filter_append, h, hmore, transitions_append]

theorem Leads.stagesEntered_eq {before : Stage} {events : List Event} {entered : List Stage}
    (h : Leads before events entered) : stagesEntered events = entered := by
  have hfilter : stagesEntered (events.filter Event.isTransition) = stagesEntered events := by
    unfold stagesEntered
    rw [List.filterMap_filter]
    apply List.filterMap_congr
    intro e _
    cases e <;> rfl
  rw [← hfilter, show events.filter Event.isTransition = _ from h, stagesEntered_transitions]

/-! ## Files -/

/-- What the phases that were started on a file say about its text and its report. -/
structure Begun (t : Tree) (path : Path) (report : Report) (phases : List Stage) : Prop where
  front : phases <+: [.render, .extract, .generate]
  unread : phases = [] ↔ ∃ why, readSource t path = .error why
  rendering : phases = [.render] ↔ report.row.status = some "UNBALANCED_MARKUP"
  extracting : phases = [.render, .extract] ↔
    report.row.status = some "NO_COMPONENT" ∨ report.row.status = some "UNBALANCED_BRACES"
  generating : phases = [.render, .extract, .generate] ↔
    report.success = true ∨ report.row.status = some "MISSING_DIRECTIVE"

theorem begun_attempt (s : Settings) (t : Tree) (path : Path) :
    Begun t path (s.attempt t path).report (s.attempt t path).stages := by
  cases hsource : readSource t path with
  | error why =>
      rw [attempt_of_error hsource]
      constructor
      all_goals
        simp [hsource, Attempt.stages, Report.row, Report.success, Report.product?, Cause.code]
  | ok source =>
      rw [attempt_of_ok hsource]
      rcases compileFile_cases { selfTag := s.selfTag } (some path.name) source
        (some (stem path.name).toList) with ⟨c, hcourse⟩ | ⟨phase, e, harises, hcourse⟩
      · rw [hcourse]
        constructor
        all_goals simp [hsource, attemptOf, Attempt.stages, Phase.started, Stage.ofPhase, Report.row,
          Report.success, Report.product?]
      · rw [hcourse]
        cases harises
        all_goals
          constructor
          all_goals simp [hsource, attemptOf, Attempt.stages, Phase.started, Stage.ofPhase, Report.row,
            Report.success, Report.product?, Cause.code, Component.Error.code]

theorem closing_eq (a : Attempt) :
    a.closing = (if a.report.success then [.append] else []) ++ [.scanning] := by
  unfold Attempt.closing
  split <;> rfl

theorem leads_buildEvents (quiet : Bool) (a : Attempt) :
    Leads .scanning (a.buildEvents quiet) (a.stages ++ a.closing) := by
  have hremarks : Leads (lastStage .scanning a.stages) (a.remarks.map Event.remark) [] := by
    apply leads_of_none
    intro e he
    obtain ⟨r, -, rfl⟩ := List.mem_map.1 he
    rfl
  have hphases : Leads .scanning (a.events .scanning) a.stages := by
    simpa [Attempt.events] using (leads_transitions .scanning a.stages).append hremarks
  have hstart : Leads .scanning [.compiling quiet a.report.file] [] := rfl
  exact (hstart.append hphases).append (leads_transitions _ _)

theorem lastStage_closing (a : Attempt) :
    lastStage .scanning (a.stages ++ a.closing) = .scanning := by
  simp [lastStage, closing_eq]

/-- Every file leads back to where it started from, so all of them do. -/
theorem leads_attempts (quiet : Bool) (attempts : List Attempt) :
    Leads .scanning (attempts.flatMap (·.buildEvents quiet))
        (attempts.flatMap fun a => a.stages ++ a.closing) ∧
      lastStage .scanning (attempts.flatMap fun a => a.stages ++ a.closing) = .scanning := by
  induction attempts with
  | nil => exact ⟨rfl, rfl⟩
  | cons a attempts ih =>
      have hback := lastStage_closing a
      simp only [List.flatMap_cons]
      constructor
      · apply (leads_buildEvents quiet a).append
        rw [hback]
        exact ih.1
      · rw [lastStage_append, hback]
        exact ih.2

/-! ## The policy -/

section
variable {s : Settings} {trouble : Option Trouble} {quiet dryRun : Bool} {t : Tree} {r r₀ : Result}

theorem leads_failures (before : Stage) (messages : List String) :
    Leads before (messages.map Event.failed) [] := by
  apply leads_of_none
  intro e he
  obtain ⟨message, -, rfl⟩ := List.mem_map.1 he
  rfl

theorem Result.failures_ne_nil_iff (r : Result) :
    r.failures ≠ [] ↔ ∃ report ∈ r.reports, report.success = false := by
  simp [Result.failures]

/-- The policy leads to the stage of the result, which it aborts exactly if it has a reason to. -/
theorem leads_conclude (hidle : r₀.stage = .idle)
    (h : (s.conclude trouble quiet dryRun t r₀).outcome = .ok r) :
    Leads .scanning (s.conclude trouble quiet dryRun t r₀).events [r.stage] ∧
      (r.stage = .idle ∨ r.stage = .aborted) ∧
      (r.stage = .aborted ↔ s.onError = .abort ∧ ∃ report ∈ r.reports, report.success = false) := by
  have told : ∀ last, Leads .scanning [.transition .scanning last] [last] := fun _ => rfl
  unfold Settings.conclude at h ⊢
  dsimp only at h ⊢
  by_cases hheld : r₀.failures ≠ [] ∧ s.onError = .abort
  · rw [if_pos (withheld_iff.2 hheld)] at h ⊢
    cases h
    refine ⟨?_, .inr rfl, ?_⟩
    · have hnotice : Leads .scanning
          [.aborted (r₀.reports.filterMap (·.failure?)).length r₀.path.name,
            .transition .scanning .aborted] [.aborted] := rfl
      exact (leads_failures _ _).append hnotice
    · simpa [hheld.2] using r₀.failures_ne_nil_iff.1 hheld.1
  · have hkept : r.stage = .idle → (r.stage = .aborted ↔
        s.onError = .abort ∧ ∃ report ∈ r₀.reports, report.success = false) := by
      intro hstage
      rw [hstage, ← r₀.failures_ne_nil_iff, and_comm]
      simpa using hheld
    rw [if_neg (mt withheld_iff.1 hheld)] at h ⊢
    split at h
    · rename_i hdry
      cases h
      rw [if_pos hdry, hidle]
      exact ⟨(leads_failures _ _).append (told .idle), .inl rfl, hidle ▸ hkept hidle⟩
    · rename_i hwet
      rw [if_neg hwet]
      split at h
      · cases h
      · rename_i t' hwrite
        cases h
        dsimp only
        rw [hidle]
        have hnotice : Leads .scanning [.wrote quiet r₀.path.text, .transition .scanning .idle]
            [.idle] := rfl
        exact ⟨(leads_failures _ _).append hnotice, .inl rfl, hidle ▸ hkept hidle⟩

theorem Settings.Concludes.stage_eq {stage : Stage} {t' : Tree}
    (h : s.Concludes trouble t r₀ dryRun r stage t') (hidle : r₀.stage = .idle) :
    stage = r.stage := by
  cases h with
  | withheld failed => rfl
  | dry allowed => exact hidle.symm
  | written allowed write => exact hidle.symm

/-! ## Errors of the configuration -/

theorem cleanUp_ne_config (t : Tree) (file : Path) (e : ConfigError) :
    (cleanUp t file).2 ≠ .error (.config e) := by
  unfold cleanUp
  split
  · simp
  · split <;> simp

theorem writeAtomically_ne_config (trouble : Option Trouble) (t : Tree) (target : Path)
    (bytes : List UInt8) (e : ConfigError) :
    (writeAtomically trouble t target bytes).2 ≠ .error (.config e) := by
  unfold writeAtomically
  split
  · simp
  · split
    · exact cleanUp_ne_config _ _ e
    · split
      · split
        · exact cleanUp_ne_config _ _ e
        · simp
      · exact cleanUp_ne_config _ _ e

theorem conclude_ne_config (e : ConfigError) :
    (s.conclude trouble quiet dryRun t r).outcome ≠ .error (.config e) := by
  unfold Settings.conclude
  dsimp only
  split
  · simp
  · split
    · simp
    · split
      · rename_i t' fault hwrite
        intro h
        cases h
        exact writeAtomically_ne_config trouble t _ _ e (congrArg Prod.snd hwrite)
      · simp

end

/-! ## The whole build -/

section
variable {s : Settings} {p : Pipeline} {stage : Stage} {trouble : Option Trouble}
  {quiet dryRun : Bool} {t : Tree}

theorem componentsPath_ne_config (e : ConfigError) : s.componentsPath ≠ .error (.config e) := by
  unfold Settings.componentsPath
  split <;> simp

theorem outputPath_ne_config (e : ConfigError) : s.outputPath ≠ .error (.config e) := by
  unfold Settings.outputPath
  split
  · rename_i fault hpath
    intro h
    exact componentsPath_ne_config e (hpath.trans h)
  · simp
  · simp

theorem previousText_ne_config (path : Path) (e : ConfigError) :
    previousText t path ≠ .error (.config e) := by
  unfold previousText
  split
  · simp
  · simp
  · split <;> simp

/-- A build ends by an error of the configuration only where the directory is missing. -/
theorem missing_of_config {e : ConfigError}
    (h : (s.build p stage t quiet dryRun trouble).outcome = .error (.config e)) :
    ∃ directory, s.componentsPath = .ok directory ∧ t.isDirectory directory = false ∧
      (s.build p stage t quiet dryRun trouble).events = transitions stage [.scanning, .aborted] ∧
      (s.build p stage t quiet dryRun trouble).stage = .aborted := by
  cases hdirectory : s.componentsPath with
  | error fault =>
      simp only [Settings.build, hdirectory] at h
      obtain rfl := Except.error.inj h
      exact absurd hdirectory (componentsPath_ne_config e)
  | ok directory =>
      cases hpath : s.outputPath with
      | error fault =>
          simp only [Settings.build, hdirectory, hpath] at h
          obtain rfl := Except.error.inj h
          exact absurd hpath (outputPath_ne_config e)
      | ok path =>
          cases hfiles : s.discover t with
          | error fault =>
              refine ⟨directory, rfl, ?_, ?_, ?_⟩
              · by_contra hthere
                have hok := (discover_eq_ok_iff hdirectory).2 ⟨by simpa using hthere, rfl⟩
                cases hok.symm.trans hfiles
              all_goals simp [Settings.build, hdirectory, hpath, hfiles]
          | ok files =>
              exfalso
              cases hprevious : previousText t path with
              | error fault =>
                  simp only [Settings.build, hdirectory, hpath, hfiles, hprevious] at h
                  obtain rfl := Except.error.inj h
                  exact previousText_ne_config path e hprevious
              | ok previous =>
                  simp only [Settings.build, hdirectory, hpath, hfiles, hprevious] at h
                  exact conclude_ne_config e h

theorem Settings.Surveyed.events_eq {r₀ : Result} {directory : Path} {files : List String}
    (hr₀ : s.Surveyed t r₀) (hdirectory : s.componentsPath = .ok directory)
    (hfiles : s.discover t = .ok files) :
    (s.build p stage t quiet dryRun trouble).events =
      [.transition stage .scanning] ++
        (files.map fun name => s.attempt t ⟨directory.parts ++ [name]⟩).flatMap
          (·.buildEvents quiet) ++
        (s.conclude trouble quiet dryRun t r₀).events := by
  obtain ⟨last, path, reports, output, previous, written⟩ := r₀
  obtain ⟨hpath, ⟨directory', files', hdirectory', hfiles', hreports⟩, houtput, hprevious, hlast,
    hwritten⟩ := hr₀
  obtain rfl := Except.ok.inj (hdirectory.symm.trans hdirectory')
  obtain rfl := Except.ok.inj (hfiles.symm.trans hfiles')
  dsimp only at hpath hreports houtput hprevious hlast hwritten
  simp only [Settings.build, survey_fst, hdirectory, hpath, hfiles, hprevious, List.map_map,
    Function.comp_def, hlast, hwritten, houtput, hreports]
  rfl

theorem Settings.Surveyed.leads_build (p : Pipeline) (stage : Stage) {r₀ : Result} {directory : Path}
    {files : List String} (hr₀ : s.Surveyed t r₀) (hdirectory : s.componentsPath = .ok directory)
    (hfiles : s.discover t = .ok files) {last : List Stage}
    (hlast : Leads .scanning (s.conclude trouble quiet dryRun t r₀).events last) :
    Leads stage (s.build p stage t quiet dryRun trouble).events
      (.scanning :: files.flatMap (fun name =>
        (s.attempt t ⟨directory.parts ++ [name]⟩).stages ++
          (s.attempt t ⟨directory.parts ++ [name]⟩).closing) ++ last) := by
  obtain ⟨hattempts, hback⟩ :=
    leads_attempts quiet (files.map fun name => s.attempt t ⟨directory.parts ++ [name]⟩)
  have hstart : Leads stage [.transition stage .scanning] [.scanning] := rfl
  have hfront := hstart.append hattempts
  rw [hr₀.events_eq hdirectory hfiles]
  simp only [List.flatMap_map] at hfront hback ⊢
  apply hfront.append
  rw [lastStage_append, show lastStage stage [.scanning] = .scanning from rfl, hback]
  exact hlast

end

/-- A build that returns, or ends by an error of the configuration, enters `scanning`, leads through
the files that it discovers, and enters one last stage, from which the next build goes on. -/
theorem build_stages (s : Settings) (p : Pipeline) (stage : Stage) (t : Tree)
    (quiet dryRun : Bool) (trouble : Option Trouble)
    (h : (∃ r, (s.build p stage t quiet dryRun trouble).outcome = .ok r) ∨
      ∃ e, (s.build p stage t quiet dryRun trouble).outcome = .error (.config e)) :
    let pass := s.build p stage t quiet dryRun trouble
    ∃ (directory : Path) (files : List String) (phases : String → List Stage) (last : Stage),
      s.componentsPath = .ok directory ∧
      (if t.isDirectory directory then s.discover t = .ok files else files = []) ∧
      let report := fun name => (s.attempt t ⟨directory.parts ++ [name]⟩).report
      let entered := .scanning :: files.flatMap (fun name =>
        phases name ++ (if (report name).success then [.append] else []) ++ [.scanning]) ++ [last]
      (∀ name ∈ files, Begun t ⟨directory.parts ++ [name]⟩ (report name) (phases name)) ∧
      stagesEntered pass.events = entered ∧
      pass.events.filter Event.isTransition = transitions stage entered ∧
      pass.stage = last ∧ (last = .idle ∨ last = .aborted) ∧
      (last = .aborted ↔ t.isDirectory directory = false ∨
        s.onError = .abort ∧ ∃ name ∈ files, (report name).success = false) ∧
      ∀ r, pass.outcome = .ok r → r.stage = last ∧ r.reports = files.map report := by
  intro pass
  rcases h with ⟨r, hr⟩ | ⟨e, he⟩
  · rcases build_cases s p stage t quiet with ⟨fault, hfault⟩ | ⟨r₀, hr₀⟩
    · cases (hfault dryRun trouble).symm.trans hr
    · obtain ⟨directory, files, hdirectory, hfiles, hreports⟩ := hr₀.reports
      obtain ⟨houtcome, hstage, -⟩ := hr₀.build_eq p stage quiet dryRun trouble
      have hconclude := houtcome.symm.trans hr
      obtain ⟨hlast, hends, haborted⟩ := leads_conclude hr₀.stage hconclude
      have hsame := (concludes hconclude).reports_eq.trans hreports
      have hthere := ((discover_eq_ok_iff hdirectory).1 hfiles).1
      have hleads := hr₀.leads_build p stage hdirectory hfiles hlast
      refine ⟨directory, files, fun name => (s.attempt t ⟨directory.parts ++ [name]⟩).stages,
        r.stage, hdirectory, ?_, ?_, ?_, ?_, ?_, hends, ?_, ?_⟩
      · rw [if_pos hthere]
        exact hfiles
      · exact fun name _ => begun_attempt s t _
      · simpa [closing_eq] using hleads.stagesEntered_eq
      · simpa [Leads, closing_eq] using hleads
      · exact hstage.trans ((concludes hconclude).stage_eq hr₀.stage)
      · rw [haborted, hsame, hthere]
        simp
      · intro r' hr'
        obtain rfl := Except.ok.inj (hr.symm.trans hr')
        exact ⟨rfl, hsame⟩
  · obtain ⟨directory, hdirectory, hmissing, hevents, hstage⟩ := missing_of_config he
    have hleads : Leads stage pass.events [.scanning, .aborted] := by
      rw [show pass.events = _ from hevents]
      exact leads_transitions stage _
    refine ⟨directory, [], fun _ => [], .aborted, hdirectory, ?_, ?_, hleads.stagesEntered_eq,
      hleads, hstage, .inr rfl, ?_, ?_⟩
    · rw [hmissing]
      rfl
    · exact fun name hname => absurd hname List.not_mem_nil
    · simp [hmissing]
    · intro r hr
      cases he.symm.trans hr

/-- Three files, of which the second one has a block without an end, under the policy that leaves it
out. The build before this one was aborted. -/
theorem build_stages_backwards :
    (patient.build {} .aborted backwards true true).outcome = .ok backwardsSurvey ∧
      stagesEntered (patient.build {} .aborted backwards true true).events =
        [.scanning, .render, .extract, .generate, .append, .scanning, .render, .scanning,
          .render, .extract, .generate, .append, .scanning, .idle] := by
  have hr : (patient.build {} .aborted backwards true true).outcome = .ok backwardsSurvey :=
    (surveyed_backwards.build_eq {} .aborted true true none).1.trans
      (conclude_of_dry (by simp [patient])).1
  obtain ⟨directory, files, phases, last, hdirectory, hfiles, hbegun, hentered, -, -, hends,
    haborted, hresult⟩ := build_stages patient {} .aborted backwards true true none (.inl ⟨_, hr⟩)
  have hpath : patient.componentsPath = .ok ⟨["w", "components"]⟩ := by decide +kernel
  obtain rfl := Except.ok.inj (hpath.symm.trans hdirectory)
  rw [if_pos (by decide)] at hfiles
  obtain rfl : ["a-b.jsx", "c-d.jsx", "e-f.jsx"] = files := by
    rw [← surveyed_backwards.map_file_eq hfiles]
    decide +kernel
  have hfirst := (hbegun "a-b.jsx" (by simp)).generating.2 (.inl (by decide +kernel))
  have hsecond := (hbegun "c-d.jsx" (by simp)).rendering.2 (by decide +kernel)
  have hthird := (hbegun "e-f.jsx" (by simp)).generating.2 (.inl (by decide +kernel))
  have hlast : last = .idle := by
    apply hends.resolve_right
    intro h
    rcases haborted.1 h with hmissing | ⟨hpolicy, -⟩
    · exact absurd hmissing (by decide)
    · cases hpolicy
  have hsuccess :
      (patient.attempt backwards ⟨["w", "components", "a-b.jsx"]⟩).report.success = true ∧
      (patient.attempt backwards ⟨["w", "components", "c-d.jsx"]⟩).report.success = false ∧
      (patient.attempt backwards ⟨["w", "components", "e-f.jsx"]⟩).report.success = true := by
    decide +kernel
  refine ⟨hr, ?_⟩
  rw [hentered]
  simp [hfirst, hsecond, hthird, hlast, hsuccess]

end ElementBundle.Project
