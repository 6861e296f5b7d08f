import ElementBundle.Proofs.Component.LineEnds
import ElementBundle.Proofs.Disk.Tree
import ElementBundle.Proofs.Project.Survey
import ElementBundle.Proofs.Text.Encoding

/-! # Component files

Which files of a tree are components, and that a build sees nothing else of its tree: two trees with
the same component files are discovered in the same order, and each file is reported on in the same
way.
-/

namespace ElementBundle.Project

open ElementBundle.Component ElementBundle.Disk ElementBundle.Text

/-! ## Discovery -/

/-- A file of this name is taken for a component. -/
def Settings.Names (s : Settings) (name : String) : Prop :=
  suffix name = s.extension ∧ s.output ≠ .text name

/-- A component file and what it holds. -/
structure Settings.Holds (s : Settings) (directory : Path) (t : Tree) (name : String)
    (bytes : List UInt8) : Prop where
  named : s.Names name
  file : ∃ stamp, t.at? (directory.parts ++ [name]) = some (.file bytes stamp)

section
variable {s : Settings} {directory : Path} {t t' : Tree} {name : String} {files : List String}
  {bytes : List UInt8}

theorem isComponent_file_iff {stamp : Nat} :
    s.isComponent name (.file bytes stamp) = true ↔ s.Names name := by
  unfold Settings.isComponent Settings.Names
  simp only [Bool.and_eq_true, beq_iff_eq]
  refine and_congr_right fun _ => ?_
  cases s.output with
  | text output => simpa using ne_comm
  | _ => simp

theorem mem_children_iff (ht : t.Sound) {place : List String} {entry : Entry} :
    (name, entry) ∈ t.children place ↔ t.at? (place ++ [name]) = some entry := by
  constructor
  · intro h
    obtain ⟨⟨q, e⟩, he, hq⟩ := List.mem_filterMap.1 h
    dsimp only at hq
    split at hq
    · rename_i last hlast
      split at hq
      · rename_i hfront
        cases hq
        obtain ⟨front, rfl⟩ := List.getLast?_eq_some_iff.1 hlast
        rw [List.dropLast_concat] at hfront
        exact hfront ▸ ht.at?_of_mem he
      · cases hq
    · cases hq
  · intro h
    exact List.mem_filterMap.2 ⟨_, Tree.mem_of_at? h (by simp), by simp⟩

theorem nodup_children (ht : t.Sound) (place : List String) :
    ((t.children place).map (·.1)).Nodup := by
  refine List.pairwise_map.2 (List.Pairwise.filterMap _ ?_ (List.pairwise_map.1 ht.distinct))
  rintro ⟨q, e⟩ ⟨q', e'⟩ hne b hb b' hb' hname
  dsimp only at hb hb' hne
  split at hb
  · split at hb'
    · rename_i _ last hlast _ last' hlast'
      obtain ⟨front, rfl⟩ := List.getLast?_eq_some_iff.1 hlast
      obtain ⟨front', rfl⟩ := List.getLast?_eq_some_iff.1 hlast'
      simp only [List.dropLast_concat, Option.ite_none_right_eq_some, Option.some.injEq] at hb hb'
      obtain ⟨rfl, rfl⟩ := hb
      obtain ⟨rfl, rfl⟩ := hb'
      exact hne (by rw [show last = last' from hname])
    · cases hb'
  · cases hb

theorem discover_eq_ok_iff (hdirectory : s.componentsPath = .ok directory) :
    s.discover t = .ok files ↔ t.isDirectory directory = true ∧
      files = (((t.children directory.parts).filter fun e => s.isComponent e.1 e.2).map
        (·.1)).mergeSort nameLE := by
  simp only [Settings.discover, hdirectory, bind, Except.bind, pure, Except.pure, throw, throwThe,
    MonadExceptOf.throw]
  split
  · rename_i h
    simp [h, eq_comm]
  · rename_i h
    simp [h]

theorem pairwise_mergeSort_nameLE (names : List String) :
    (names.mergeSort nameLE).Pairwise (nameLE · ·) := by
  apply List.pairwise_mergeSort
  · intro a b c hab hbc
    simp only [nameLE, decide_eq_true_eq] at *
    exact String.le_trans hab hbc
  · intro a b
    simpa [nameLE] using String.le_total a b

theorem eq_of_perm_of_nameLE {names names' : List String} (h : names'.Perm names)
    (hsorted' : names'.Pairwise (nameLE · ·)) (hsorted : names.Pairwise (nameLE · ·)) :
    names' = names := by
  refine h.eq_of_pairwise (fun a b _ _ hab hba => ?_) hsorted' hsorted
  simp only [nameLE, decide_eq_true_eq] at hab hba
  exact String.le_antisymm hab hba

/-- The names that are discovered are those of the component files, each once and in order. -/
theorem discover_spec (ht : t.Sound) (hdirectory : s.componentsPath = .ok directory)
    (h : s.discover t = .ok files) :
    (∀ name, name ∈ files ↔ ∃ bytes, s.Holds directory t name bytes) ∧ files.Nodup ∧
      files.Pairwise (nameLE · ·) := by
  obtain ⟨-, rfl⟩ := (discover_eq_ok_iff hdirectory).1 h
  refine ⟨fun name => ?_, ?_, ?_⟩
  · rw [List.mem_mergeSort, List.mem_map]
    constructor
    · rintro ⟨⟨name, entry⟩, he, rfl⟩
      obtain ⟨hchild, hcomponent⟩ := List.mem_filter.1 he
      cases entry with
      | directory => cases hcomponent
      | file bytes stamp =>
        exact ⟨bytes, isComponent_file_iff.1 hcomponent, stamp, (mem_children_iff ht).1 hchild⟩
    · rintro ⟨bytes, hnamed, stamp, hfile⟩
      exact ⟨_, List.mem_filter.2 ⟨(mem_children_iff ht).2 hfile, isComponent_file_iff.2 hnamed⟩, rfl⟩
  · refine (List.mergeSort_perm _ _).nodup_iff.2 ?_
    exact (nodup_children ht directory.parts).sublist (List.filter_sublist.map _)
  · exact pairwise_mergeSort_nameLE _

theorem discover_congr (ht : t.Sound) (ht' : t'.Sound)
    (hdirectory : s.componentsPath = .ok directory) (hthere : t'.isDirectory directory = true)
    (same : ∀ name bytes, s.Holds directory t' name bytes ↔ s.Holds directory t name bytes)
    (h : s.discover t = .ok files) : s.discover t' = .ok files := by
  have h' := (discover_eq_ok_iff hdirectory).2 ⟨hthere, rfl⟩
  obtain ⟨hmem, hnodup, hsorted⟩ := discover_spec ht hdirectory h
  obtain ⟨hmem', hnodup', hsorted'⟩ := discover_spec ht' hdirectory h'
  rw [h']
  congr 1
  have hperm := (List.perm_ext_iff_of_nodup hnodup' hnodup).2 fun name => by
    rw [hmem', hmem]
    exact exists_congr (same name)
  exact eq_of_perm_of_nameLE hperm hsorted' hsorted

/-! ## Reports -/

theorem Settings.Holds.read (h : s.Holds directory t name bytes) (ht : t.Sound) :
    t.read ⟨directory.parts ++ [name]⟩ = .ok bytes := by
  obtain ⟨stamp, hfile⟩ := h.file
  simp [Tree.read, Disk.Tree.get, Tree.place, ht.walk_place hfile, hfile]

theorem attempt_congr {path : Path} (h : t'.read path = t.read path) :
    s.attempt t' path = s.attempt t path := by
  unfold Settings.attempt Settings.attemptWith readSource
  rw [h]

theorem reports_congr (ht : t.Sound) (ht' : t'.Sound) (hdirectory : s.componentsPath = .ok directory)
    (h : s.discover t = .ok files)
    (same : ∀ name bytes, s.Holds directory t' name bytes ↔ s.Holds directory t name bytes) :
    (files.map fun name => (s.attempt t' ⟨directory.parts ++ [name]⟩).report) =
      files.map fun name => (s.attempt t ⟨directory.parts ++ [name]⟩).report := by
  refine List.map_congr_left fun name hname => ?_
  obtain ⟨bytes, hholds⟩ := ((discover_spec ht hdirectory h).1 name).1 hname
  rw [attempt_congr ((((same name bytes).2 hholds).read ht').trans (hholds.read ht).symm)]

theorem file_report_attempt (s : Settings) (t : Tree) (path : Path) :
    (s.attempt t path).report.file = path.name := by
  cases hread : readSource t path with
  | error why => rw [attempt_of_error hread]
  | ok source =>
    rw [attempt_of_ok hread]
    unfold attemptOf
    split <;> rfl

/-! ## The text of a bundle -/

theorem return_not_mem_readSource {path : Path} {source : List Char}
    (h : readSource t path = .ok source) : '\r' ∉ source := by
  unfold readSource at h
  split at h
  · cases h
  · split at h
    · cases h
    · cases h
      exact not_mem_unifyNewlines _

theorem return_not_mem_product {path : Path} {p : Product}
    (h : (s.attempt t path).report.product? = some p) : '\r' ∉ p.output := by
  have hhelper : '\r' ∉ Markup.Renderer.helper { selfTag := s.selfTag } :=
    (by decide : '\r' ∉ "renderComposcriptHTML".toList)
  cases hread : readSource t path with
  | error why =>
    rw [attempt_of_error hread] at h
    cases h
  | ok source =>
    rw [attempt_of_ok hread, compileFile] at h
    cases hcompile : compile { selfTag := s.selfTag } source (some (stem path.name).toList) with
    | error f =>
      rw [hcompile] at h
      cases h
    | ok c =>
      rw [hcompile] at h
      cases h
      exact return_not_mem_compile hhelper hcompile (return_not_mem_readSource hread)

theorem return_not_mem_preludeLines {helper base : String} (hhelper : '\r' ∉ helper.toList)
    (hbase : '\r' ∉ base.toList) : ∀ line ∈ preludeLines helper base, '\r' ∉ line.toList := by
  simp [preludeLines, hhelper, hbase]

theorem return_not_mem_prelude : '\r' ∉ prelude := by
  intro h
  rw [prelude, String.toList_intercalate] at h
  rcases mem_of_mem_intercalate h with hsep | ⟨line, hline, hmem⟩
  · exact absurd hsep (by decide)
  · obtain ⟨text, htext, rfl⟩ := List.mem_map.1 hline
    exact return_not_mem_preludeLines (by decide) (by decide) text htext hmem

/-- A bundle is read as it was written: no carriage return gets into it. -/
theorem return_not_mem_bundleText {paths : List Path} :
    '\r' ∉ bundleText (paths.map fun path => (s.attempt t path).report) := by
  simp only [bundleText, List.mem_append, not_or]
  refine ⟨return_not_mem_prelude, fun hmem => ?_⟩
  obtain ⟨report, hreport, hmem⟩ := List.mem_flatMap.1 hmem
  obtain ⟨path, -, rfl⟩ := List.mem_map.1 hreport
  split at hmem
  · rename_i p hp
    rcases List.mem_cons.1 hmem with h | h
    · cases h
    · exact return_not_mem_product hp h
  · cases hmem

end

end ElementBundle.Project
