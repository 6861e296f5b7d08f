import ElementBundle.Proofs.Project.Survey
import ElementBundle.Proofs.Project.Write

/-! # What a build does to the disk

A build that comes to an end has made its reports and then applied the policy on errors. Either it
writes nothing and changes nothing, or it replaces the bundle as a whole. A build whose write fails
ends by a fault, and the bundle is what it was.
-/

namespace ElementBundle.Project

open ElementBundle.Component ElementBundle.Disk ElementBundle.Text

/-! ## Up to the policy -/

/-- A result before the policy is applied to it: all files have been compiled. -/
structure Settings.Surveyed (s : Settings) (t : Tree) (r : Result) : Prop where
  path : s.outputPath = .ok r.path
  reports : ∃ directory files, s.componentsPath = .ok directory ∧ s.discover t = .ok files ∧
    r.reports = files.map fun name => (s.attempt t ⟨directory.parts ++ [name]⟩).report
  output : r.output = bundleText r.reports
  previous : previousText t r.path = .ok r.previous
  stage : r.stage = .idle
  written : r.written = false

theorem Settings.Surveyed.build_eq {s : Settings} {t : Tree} {r : Result} (hr : s.Surveyed t r)
    (p : Pipeline) (stage : Stage) (quiet dryRun : Bool) (trouble : Option Trouble) :
    (s.build p stage t quiet dryRun trouble).outcome = (s.conclude trouble quiet dryRun t r).outcome ∧
      (s.build p stage t quiet dryRun trouble).stage = (s.conclude trouble quiet dryRun t r).stage ∧
      (s.build p stage t quiet dryRun trouble).tree = (s.conclude trouble quiet dryRun t r).tree := by
  obtain ⟨last, path, reports, output, previous, written⟩ := r
  obtain ⟨hpath, ⟨directory, files, hdirectory, hfiles, hreports⟩, houtput, hprevious, hlast,
    hwritten⟩ := hr
  dsimp only at hpath hreports houtput hprevious hlast hwritten
  simp only [Settings.build, hdirectory, hpath, hfiles, hprevious, survey_fst, List.map_map,
    Function.comp_def, hlast, hwritten, houtput, hreports, and_self]

/-- A build ends by a fault in any case and changes nothing, or it comes to the policy. -/
theorem build_faults_or_surveyed (s : Settings) (p : Pipeline) (stage : Stage) (t : Tree)
    (quiet : Bool) :
    (∃ fault, ∀ dryRun trouble, (s.build p stage t quiet dryRun trouble).outcome = .error fault ∧
      (s.build p stage t quiet dryRun trouble).tree = t) ∨
    ∃ r, s.Surveyed t r := by
  cases hdirectory : s.componentsPath with
  | error fault => exact .inl ⟨fault, fun _ _ => by simp [Settings.build, hdirectory]⟩
  | ok directory =>
    cases hpath : s.outputPath with
    | error fault => exact .inl ⟨fault, fun _ _ => by simp [Settings.build, hdirectory, hpath]⟩
    | ok path =>
      cases hfiles : s.discover t with
      | error fault =>
        exact .inl ⟨fault, fun _ _ => by simp [Settings.build, hdirectory, hpath, hfiles]⟩
      | ok files =>
        cases hprevious : previousText t path with
        | error fault =>
          exact .inl ⟨fault, fun _ _ => by
            simp [Settings.build, hdirectory, hpath, hfiles, hprevious]⟩
        | ok previous =>
          let reports := files.map fun name => (s.attempt t ⟨directory.parts ++ [name]⟩).report
          exact .inr ⟨⟨.idle, path, reports, bundleText reports, previous, false⟩,
            hpath, ⟨directory, files, hdirectory, hfiles, rfl⟩, rfl, hprevious, rfl, rfl⟩

theorem build_cases (s : Settings) (p : Pipeline) (stage : Stage) (t : Tree) (quiet : Bool) :
    (∃ fault, ∀ dryRun trouble, (s.build p stage t quiet dryRun trouble).outcome = .error fault) ∨
    ∃ r, s.Surveyed t r := by
  refine (build_faults_or_surveyed s p stage t quiet).imp_left ?_
  rintro ⟨fault, h⟩
  exact ⟨fault, fun dryRun trouble => (h dryRun trouble).1⟩

/-! ## The policy -/

section
variable {s : Settings} {trouble : Option Trouble} {quiet dryRun : Bool} {t : Tree} {r : Result}

theorem Result.failures_eq_nil_iff (r : Result) :
    r.failures = [] ↔ (r.reports.filterMap (·.failure?)).isEmpty = true := by
  simp only [Result.failures, List.isEmpty_iff, List.filter_eq_nil_iff, List.filterMap_eq_nil_iff]
  refine forall₂_congr fun report _ => ?_
  cases h : report.outcome <;> simp [Report.success, Report.product?, Report.failure?, h]

theorem withheld_iff :
    (!(r.reports.filterMap (·.failure?)).isEmpty && decide (s.onError = .abort)) = true ↔
      r.failures ≠ [] ∧ s.onError = .abort := by
  simp [Ne, r.failures_eq_nil_iff]

theorem conclude_of_withheld (h : r.failures ≠ [] ∧ s.onError = .abort) :
    (s.conclude trouble quiet dryRun t r).outcome = .ok { r with stage := .aborted } ∧
      (s.conclude trouble quiet dryRun t r).stage = .aborted ∧
      (s.conclude trouble quiet dryRun t r).tree = t := by
  simp only [Settings.conclude, if_pos (withheld_iff.2 h), and_self]

theorem conclude_of_dry (h : ¬ (r.failures ≠ [] ∧ s.onError = .abort)) :
    (s.conclude trouble quiet true t r).outcome = .ok r ∧
      (s.conclude trouble quiet true t r).stage = .idle ∧
      (s.conclude trouble quiet true t r).tree = t := by
  simp only [Settings.conclude, if_neg (mt withheld_iff.1 h), if_true, and_self]

theorem conclude_of_ok {t' : Tree} (h : ¬ (r.failures ≠ [] ∧ s.onError = .abort))
    (hwrite : writeAtomically trouble t r.path (encodeUtf8 r.output) = (t', .ok ())) :
    (s.conclude trouble quiet false t r).outcome = .ok { r with written := true } ∧
      (s.conclude trouble quiet false t r).stage = .idle ∧
      (s.conclude trouble quiet false t r).tree = t' := by
  simp only [Settings.conclude, if_neg (mt withheld_iff.1 h), Bool.false_eq_true, if_false, hwrite,
    and_self]

theorem conclude_of_error {t' : Tree} {fault : Fault} (h : ¬ (r.failures ≠ [] ∧ s.onError = .abort))
    (hwrite : writeAtomically trouble t r.path (encodeUtf8 r.output) = (t', .error fault)) :
    (s.conclude trouble quiet false t r).outcome = .error fault ∧
      (s.conclude trouble quiet false t r).tree = t' := by
  simp only [Settings.conclude, if_neg (mt withheld_iff.1 h), Bool.false_eq_true, if_false, hwrite,
    and_self]

/-- How a build that returns comes out of the policy. -/
inductive Settings.Concludes (s : Settings) (trouble : Option Trouble) (t : Tree) (r₀ : Result) :
    Bool → Result → Stage → Tree → Prop
  | withheld {dryRun : Bool} (failed : r₀.failures ≠ [] ∧ s.onError = .abort) :
      Concludes s trouble t r₀ dryRun { r₀ with stage := .aborted } .aborted t
  | dry (allowed : ¬ (r₀.failures ≠ [] ∧ s.onError = .abort)) :
      Concludes s trouble t r₀ true r₀ .idle t
  | written {t' : Tree} (allowed : ¬ (r₀.failures ≠ [] ∧ s.onError = .abort))
      (write : writeAtomically trouble t r₀.path (encodeUtf8 r₀.output) = (t', .ok ())) :
      Concludes s trouble t r₀ false { r₀ with written := true } .idle t'

theorem concludes {r₀ : Result} (hr : (s.conclude trouble quiet dryRun t r₀).outcome = .ok r) :
    s.Concludes trouble t r₀ dryRun r (s.conclude trouble quiet dryRun t r₀).stage
      (s.conclude trouble quiet dryRun t r₀).tree := by
  by_cases hheld : r₀.failures ≠ [] ∧ s.onError = .abort
  · obtain ⟨houtcome, hstage, htree⟩ := @conclude_of_withheld s trouble quiet dryRun t r₀ hheld
    cases houtcome.symm.trans hr
    rw [hstage, htree]
    exact .withheld hheld
  · cases dryRun with
    | true =>
      obtain ⟨houtcome, hstage, htree⟩ := @conclude_of_dry s trouble quiet t r₀ hheld
      cases houtcome.symm.trans hr
      rw [hstage, htree]
      exact .dry hheld
    | false =>
      cases hwrite : writeAtomically trouble t r₀.path (encodeUtf8 r₀.output) with
      | mk t' outcome =>
        cases outcome with
        | error fault => cases (conclude_of_error hheld hwrite).1.symm.trans hr
        | ok =>
          obtain ⟨houtcome, hstage, htree⟩ := @conclude_of_ok s trouble quiet t r₀ t' hheld hwrite
          cases houtcome.symm.trans hr
          rw [hstage, htree]
          exact .written hheld hwrite

theorem Settings.Concludes.reports_eq {r₀ : Result} {stage : Stage} {t' : Tree}
    (h : s.Concludes trouble t r₀ dryRun r stage t') : r.reports = r₀.reports := by
  cases h <;> rfl

/-- A build that returns has written nothing, or all of its bundle. -/
theorem Settings.Concludes.policy {r₀ : Result} {stage : Stage} {t' : Tree}
    (h : s.Concludes trouble t r₀ dryRun r stage t') (ht : t.Sound) (hr₀ : s.Surveyed t r₀) :
    r.path = r₀.path ∧ r.stage = stage ∧
      if r.failures ≠ [] ∧ s.onError = .abort then
        t' = t ∧ r.written = false ∧ r.stage = .aborted
      else if dryRun then t' = t ∧ r.written = false ∧ r.stage = .idle
      else
        Replaced t t' r.path (encodeUtf8 r.output) ∧ r.written = true ∧ r.stage = .idle := by
  cases h with
  | withheld failed => exact ⟨rfl, rfl, (if_pos failed).mpr ⟨rfl, hr₀.written, rfl⟩⟩
  | dry allowed =>
    refine ⟨rfl, hr₀.stage, (if_neg allowed).mpr ?_⟩
    exact (if_pos rfl).mpr ⟨rfl, hr₀.written, hr₀.stage⟩
  | written allowed write =>
    obtain ⟨directory, name, site, hspare, -, hat⟩ :=
      exists_site_of_writeAtomically ht hr₀.previous write
    refine ⟨rfl, hr₀.stage, (if_neg allowed).mpr ?_⟩
    exact (if_neg Bool.false_ne_true).mpr ⟨site.replaced hspare hat, rfl, hr₀.stage⟩

/-- A build that comes to the write is stopped by any trouble, and by nothing else. -/
theorem conclude_write (ht : t.Sound) (hr : s.Surveyed t r)
    (hheld : ¬ (r.failures ≠ [] ∧ s.onError = .abort))
    (hget : t.get (temporary r.path) ≠ .ok .directory)
    (hdenied : trouble = some .denied → t.exists (temporary r.path) = false) :
    if trouble ≠ none ∨ t.exists r.path.parent = false then
      ∃ fault, (s.conclude trouble quiet false t r).outcome = .error fault ∧
        Kept t (s.conclude trouble quiet false t r).tree r.path
    else (s.conclude trouble quiet false t r).outcome = .ok { r with written := true } := by
  split
  · rename_i htrouble
    obtain ⟨t', fault, hwrite, hkept⟩ :=
      exists_kept ht hr.previous hget hdenied htrouble (encodeUtf8 r.output)
    obtain ⟨houtcome, htree⟩ := @conclude_of_error s trouble quiet t r t' fault hheld hwrite
    exact ⟨fault, houtcome, htree ▸ hkept⟩
  · rename_i htrouble
    obtain ⟨hnone, hparent⟩ := not_or.1 htrouble
    obtain rfl : trouble = none := by simpa using hnone
    obtain ⟨t', hwrite⟩ :=
      exists_writeAtomically ht hr.previous (by simpa using hparent) hget (encodeUtf8 r.output)
    exact (conclude_of_ok hheld hwrite).1

end

/-- A build that returns leaves the disk alone or replaces the bundle, as the policy and `dryRun` say.
A build that comes to the write, which is one whose dry run is not aborted, fails exactly if there is
trouble, and then it keeps the bundle. Where nothing may be written nothing is removed either, so there
no temporary file may have been left before. -/
theorem build_writePolicy (s : Settings) (p : Pipeline) (stage : Stage) (t : Tree) (quiet dryRun : Bool)
    (trouble : Option Trouble) (ht : t.Sound) :
    (∀ r, (s.build p stage t quiet dryRun trouble).outcome = .ok r →
      s.outputPath = .ok r.path ∧
      r.stage = (s.build p stage t quiet dryRun trouble).stage ∧
      if r.failures ≠ [] ∧ s.onError = .abort then
        (s.build p stage t quiet dryRun trouble).tree = t ∧ r.written = false ∧ r.stage = .aborted
      else if dryRun then
        (s.build p stage t quiet dryRun trouble).tree = t ∧ r.written = false ∧ r.stage = .idle
      else
        Replaced t (s.build p stage t quiet dryRun trouble).tree r.path (encodeUtf8 r.output) ∧
          r.written = true ∧ r.stage = .idle) ∧
    (∀ r, (s.build p stage t quiet true).outcome = .ok r → r.stage ≠ .aborted →
      t.get (temporary r.path) ≠ .ok .directory →
      (trouble = some .denied → t.exists (temporary r.path) = false) →
      if trouble ≠ none ∨ t.exists r.path.parent = false then
        ∃ fault, (s.build p stage t quiet false trouble).outcome = .error fault ∧
          Kept t (s.build p stage t quiet false trouble).tree r.path
      else
        (s.build p stage t quiet false trouble).outcome = .ok { r with written := true }) := by
  rcases build_cases s p stage t quiet with ⟨fault, hfault⟩ | ⟨r₀, hr₀⟩
  · constructor
    · intro r hr
      cases (hfault dryRun trouble).symm.trans hr
    · intro r hr
      cases (hfault true none).symm.trans hr
  · constructor
    · intro r hr
      obtain ⟨houtcome, hstage, htree⟩ := hr₀.build_eq p stage quiet dryRun trouble
      obtain ⟨hpath, hlast, hwritten⟩ := (concludes (houtcome.symm.trans hr)).policy ht hr₀
      rw [hstage, htree]
      exact ⟨hpath ▸ hr₀.path, hlast, hwritten⟩
    · intro r hr hstage hget hdenied
      have hdry := (hr₀.build_eq p stage quiet true none).1.symm.trans hr
      have hheld : ¬ (r₀.failures ≠ [] ∧ s.onError = .abort) := by
        intro hheld
        cases (conclude_of_withheld hheld).1.symm.trans hdry
        exact hstage rfl
      cases (conclude_of_dry hheld).1.symm.trans hdry
      obtain ⟨houtcome, -, htree⟩ := hr₀.build_eq p stage quiet false trouble
      rw [houtcome, htree]
      exact conclude_write ht hr₀ hheld hget hdenied

/-- Settings that leave out the components that fail. -/
def lenient : Settings :=
  { root := ⟨["w"]⟩, output := .text "sub/../compiled.js", onError := .skip }

/-- A project with a component that fails, a bundle, and the rest of an earlier write. -/
def halfWritten : Tree :=
  { entries :=
      [(["w"], .directory), (["w", "components"], .directory),
        (["w", "components", "sub"], .directory),
        (["w", "components", "a-b.jsx"], .file (encodeUtf8 "class A \x7b\x7d".toList) 0),
        (["w", "components", "compiled.js"], .file (encodeUtf8 "old".toList) 1),
        (["w", "components", "compiled.js.tmp"], .file (encodeUtf8 "half".toList) 2)]
    nextStamp := 3 }

/-- The same project with a write that fails at its last step, and with one that does not. -/
theorem build_writePolicy_lenient :
    halfWritten.Sound ∧
    ∃ r, (lenient.build {} .idle halfWritten false true).outcome = .ok r ∧ r.failures ≠ [] ∧
      (∃ fault, (lenient.build {} .idle halfWritten false false (some .replacing)).outcome =
          .error fault ∧
        Kept halfWritten (lenient.build {} .idle halfWritten false false (some .replacing)).tree
          r.path) ∧
      (lenient.build {} .idle halfWritten false false).outcome = .ok { r with written := true } ∧
      Replaced halfWritten (lenient.build {} .idle halfWritten false false).tree r.path
        (encodeUtf8 r.output) := by
  have hsound : halfWritten.Sound := ⟨by decide, by decide, by decide⟩
  have hreturns : (lenient.build {} .idle halfWritten false true).outcome.toOption.any (fun r =>
      r.failures ≠ [] ∧ r.stage ≠ .aborted ∧
        r.path = ⟨["w", "components", "sub", "..", "compiled.js"]⟩) = true := by
    decide +kernel
  cases hr : (lenient.build {} .idle halfWritten false true).outcome with
  | error fault => rw [hr] at hreturns; cases hreturns
  | ok r =>
    rw [hr] at hreturns
    obtain ⟨hfailures, hstage, hpath⟩ := of_decide_eq_true hreturns
    have hget : halfWritten.get (temporary r.path) ≠ .ok .directory := by
      rw [hpath]; decide
    have hparent : halfWritten.exists r.path.parent = true := by
      rw [hpath]; decide
    have hfails := (build_writePolicy lenient {} .idle halfWritten false false (some .replacing)
      hsound).2 r hr hstage hget (by simp)
    rw [if_pos (.inl (by decide))] at hfails
    obtain ⟨hreplaced, hwrite⟩ :=
      build_writePolicy lenient {} .idle halfWritten false false none hsound
    have hok := hwrite r hr hstage hget (by simp)
    rw [if_neg (by simp [hparent])] at hok
    obtain ⟨-, -, hafter⟩ := hreplaced _ hok
    rw [if_neg (by simp [lenient]), if_neg Bool.false_ne_true] at hafter
    exact ⟨hsound, r, rfl, hfailures, hfails, hok, hafter.1⟩

end ElementBundle.Project
