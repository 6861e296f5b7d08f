import ElementBundle.Project.Build
import ElementBundle.Proofs.Component.Pipeline

/-! # One pipeline for all files of a build

A build hands its pipeline from file to file. What comes of a file is what a
pipeline makes of it that has not gone through any other one, so a build does not
depend on the pipeline with which it starts either.
-/

namespace ElementBundle.Project

open ElementBundle.Component ElementBundle.Disk

section
variable {s : Settings} {t : Tree} {path : Path}

theorem attemptWith_of_ok {source : List Char} (h : readSource t path = .ok source) (p : Pipeline) :
    (s.attemptWith p t path).1 =
      attemptOf path (compileFile { selfTag := s.selfTag } (some path.name) source
        (some (stem path.name).toList)) := by
  unfold Settings.attemptWith
  rw [h, ← p.run_fst]

theorem attempt_of_ok {source : List Char} (h : readSource t path = .ok source) :
    s.attempt t path =
      attemptOf path (compileFile { selfTag := s.selfTag } (some path.name) source
        (some (stem path.name).toList)) :=
  attemptWith_of_ok h {}

theorem attemptWith_of_error {why : Unreadable} (h : readSource t path = .error why)
    (p : Pipeline) :
    (s.attemptWith p t path).1 =
      { report := ⟨path.name, stem path.name, .failed (.unreadable why)⟩ } := by
  unfold Settings.attemptWith
  rw [h]

theorem attempt_of_error {why : Unreadable} (h : readSource t path = .error why) :
    s.attempt t path = { report := ⟨path.name, stem path.name, .failed (.unreadable why)⟩ } :=
  attemptWith_of_error h {}

/-- An attempt does not depend on what its pipeline has gone through. -/
theorem attemptWith_fst (s : Settings) (p : Pipeline) (t : Tree) (path : Path) :
    (s.attemptWith p t path).1 = s.attempt t path := by
  cases hread : readSource t path with
  | error why => rw [attemptWith_of_error hread, attempt_of_error hread]
  | ok source => rw [attemptWith_of_ok hread, attempt_of_ok hread]

end

theorem survey_fst (s : Settings) (t : Tree) (directory : Path) (p : Pipeline)
    (names : List String) :
    (s.survey t directory p names).1 =
      names.map fun name => s.attempt t ⟨directory.parts ++ [name]⟩ := by
  induction names generalizing p with
  | nil => rfl
  | cons name names ih =>
      simp only [Settings.survey, List.map_cons, attemptWith_fst, ih]

end ElementBundle.Project
