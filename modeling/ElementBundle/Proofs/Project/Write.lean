import ElementBundle.Project.Build
import ElementBundle.Proofs.Disk.Tree

/-! # Writing a bundle as a whole

The bundle is written beside its place and then moved there. The two places are all that a write can
change: one that succeeds puts the new bundle into its place and leaves no temporary file
(`Replaced`), and one that fails at any point leaves the old bundle and no temporary file either
(`Kept`).
-/

namespace ElementBundle.Project

open ElementBundle.Disk

/-! ## The two places -/

/-- A bundle has its place in a directory, and the place of the temporary file is beside it. -/
structure Site (t : Tree) (target : Path) (directory : List String) (name : String) : Prop where
  bundle : t.place target = .ok (directory ++ [name])
  spare : t.place (temporary target) = .ok (directory ++ [name ++ ".tmp"])
  inside : t.at? directory = some .directory
  free : t.at? (directory ++ [name]) ≠ some .directory
  named : name ≠ ".."

section
variable {t t' : Tree} {target : Path} {directory : List String} {name : String}

theorem append_tmp_ne_bundle (directory : List String) (name : String) :
    directory ++ [name ++ ".tmp"] ≠ directory ++ [name] := by
  simp

theorem append_tmp_ne_dots (name : String) : name ++ ".tmp" ≠ ".." := by
  intro h
  have := congrArg (fun s : String => s.toList.getLast?) h
  simp at this

theorem get_of_previousText {previous : Option (List Char)}
    (h : previousText t target = .ok previous) :
    t.get target = .error .notFound ∨ ∃ bytes stamp, t.get target = .ok (.file bytes stamp) := by
  simp only [previousText, Tree.read] at h
  cases hget : t.get target with
  | error r => cases r <;> simp_all
  | ok entry => cases entry <;> simp_all

theorem parts_temporary (front : List String) (name : String) :
    (temporary ⟨front ++ [name]⟩).parts = front ++ [name ++ ".tmp"] := by
  simp [temporary, Path.extended, Path.name]

theorem Site.name_eq (site : Site t target directory name) : target.name = name := by
  have htemporary : (temporary target).name = target.name ++ ".tmp" := by
    simp [temporary, Path.extended, Path.name]
  have hspare := Tree.name_of_place (htemporary ▸ append_tmp_ne_dots target.name) site.spare
  rw [htemporary] at hspare
  simpa using hspare

/-- A bundle that can be read, or that is only missing, has a place unless its directory is missing. -/
theorem exists_site (ht : t.Sound) {previous : Option (List Char)}
    (hprevious : previousText t target = .ok previous) (hparent : t.exists target.parent = true) :
    ∃ directory name, Site t target directory name := by
  have hget := get_of_previousText hprevious
  obtain ⟨parts⟩ := target
  induction parts using List.reverseRecOn with
  | nil => simp [Disk.Tree.get, Tree.place, Tree.walk] at hget
  | append_singleton front name =>
    simp only [Tree.exists, Disk.Tree.get, Tree.place, Path.parent, List.dropLast_concat] at hparent hget
    cases hwalk : t.walk [] front with
    | error r => simp [hwalk] at hparent
    | ok directory =>
      simp only [hwalk, Tree.walk_append, Except.bind] at hparent hget
      cases hentry : t.at? directory with
      | none => simp [hentry] at hparent
      | some entry =>
        cases entry with
        | file => simp [Tree.walk, hentry] at hget
        | directory =>
          by_cases hname : name = ".."
          · simp [Tree.walk, hentry, hname, ht.parent hentry] at hget
          · have hplace := Tree.walk_single name hname hentry
            have hspare := Tree.walk_single _ (append_tmp_ne_dots name) hentry
            refine ⟨directory, name, ?_, ?_, hentry, ?_, hname⟩
            · simp [Tree.place, Tree.walk_append, hwalk, Except.bind, hplace]
            · simp [Tree.place, parts_temporary, Tree.walk_append, hwalk, Except.bind, hspare]
            · intro hdir
              simp [hplace, hdir] at hget

/-- The two places are no directories, so directories outlast what happens there. -/
theorem Site.directories_stay (site : Site t target directory name)
    (hspare : t.at? (directory ++ [name ++ ".tmp"]) ≠ some .directory)
    (h : ∀ q, q ≠ directory ++ [name] → q ≠ directory ++ [name ++ ".tmp"] → t'.at? q = t.at? q)
    (q : List String) (hq : t.at? q = some .directory) : t'.at? q = some .directory := by
  have hbundle : q ≠ directory ++ [name] := fun e => site.free (e ▸ hq)
  have hne : q ≠ directory ++ [name ++ ".tmp"] := fun e => hspare (e ▸ hq)
  rw [h q hbundle hne, hq]

theorem Site.of_directories (site : Site t target directory name)
    (stay : ∀ q, t.at? q = some .directory → t'.at? q = some .directory)
    (hfree : t'.at? (directory ++ [name]) ≠ some .directory) : Site t' target directory name :=
  { bundle := Tree.walk_of_directories stay site.bundle
    spare := Tree.walk_of_directories stay site.spare
    inside := stay _ site.inside
    free := hfree
    named := site.named }

/-! ## The steps of a write -/

theorem Site.write_temporary (site : Site t target directory name)
    (hspare : t.at? (directory ++ [name ++ ".tmp"]) ≠ some .directory) (bytes : List UInt8) :
    t.write (temporary target) bytes = .ok (t.stampFile (directory ++ [name ++ ".tmp"]) bytes) := by
  simp [Tree.write, site.spare, Tree.isDirectoryAt, hspare]

theorem Site.stampFile (site : Site t target directory name) (ht : t.Sound)
    (hspare : t.at? (directory ++ [name ++ ".tmp"]) ≠ some .directory) (bytes : List UInt8) :
    (t.stampFile (directory ++ [name ++ ".tmp"]) bytes).Sound ∧
      Site (t.stampFile (directory ++ [name ++ ".tmp"]) bytes) target directory name := by
  have hdots : ".." ∉ directory ++ [name ++ ".tmp"] := by
    have := ht.not_mem_dots site.inside
    simpa [this] using (append_tmp_ne_dots name).symm
  have hparent : t.at? (directory ++ [name ++ ".tmp"]).dropLast = some .directory := by
    simpa using site.inside
  have hsound := ht.put_file (by simp) hdots hparent hspare bytes t.nextStamp
  refine ⟨⟨hsound.distinct, hsound.named, hsound.inside⟩, site.of_directories ?_ ?_⟩
  · refine site.directories_stay hspare fun q _ hne => ?_
    rw [Tree.at?_stampFile (by simp), if_neg hne]
  · rw [Tree.at?_stampFile (by simp), if_neg (append_tmp_ne_bundle directory name).symm]
    exact site.free

theorem Site.cleanUp (site : Site t target directory name) (ht : t.Sound)
    (hspare : t.at? (directory ++ [name ++ ".tmp"]) ≠ some .directory) :
    ∃ t' fault, cleanUp t (temporary target) = (t', .error fault) ∧ t'.Sound ∧
      ∀ q, t'.at? q = if q = directory ++ [name ++ ".tmp"] then none else t.at? q := by
  simp only [Project.cleanUp, site.spare]
  cases hentry : t.at? (directory ++ [name ++ ".tmp"]) with
  | none =>
    refine ⟨t, .writeFailed, rfl, ht, fun q => ?_⟩
    by_cases hq : q = directory ++ [name ++ ".tmp"] <;> simp [hq, hentry]
  | some entry =>
    cases entry with
    | directory => exact absurd hentry hspare
    | file bytes stamp =>
      refine ⟨_, .writeFailed, rfl, ht.erase (by simp), fun q => ?_⟩
      exact Tree.at?_erase_of_bare (by simp) fun r hr => ht.at?_below hspare hr

/-- A write that does not get through removes its temporary file and changes nothing else. -/
theorem Site.writeAtomically_fails (site : Site t target directory name) (ht : t.Sound)
    (hspare : t.at? (directory ++ [name ++ ".tmp"]) ≠ some .directory)
    (hparent : t.exists target.parent = true) {trouble : Trouble} (htrouble : trouble ≠ .denied)
    (bytes : List UInt8) :
    ∃ t' fault, writeAtomically (some trouble) t target bytes = (t', .error fault) ∧ t'.Sound ∧
      ∀ q, t'.at? q = if q = directory ++ [name ++ ".tmp"] then none else t.at? q := by
  have hleft : ∀ left : List UInt8, ∃ t' fault,
      Project.cleanUp (t.stampFile (directory ++ [name ++ ".tmp"]) left) (temporary target) =
        (t', .error fault) ∧ t'.Sound ∧
      ∀ q, t'.at? q = if q = directory ++ [name ++ ".tmp"] then none else t.at? q := by
    intro left
    obtain ⟨hsound, hsite⟩ := site.stampFile ht hspare left
    obtain ⟨t', fault, heq, hsound', hat⟩ := hsite.cleanUp hsound (by simp [Tree.at?_stampFile])
    refine ⟨t', fault, heq, hsound', fun q => ?_⟩
    rw [hat q, Tree.at?_stampFile (by simp)]
    by_cases hq : q = directory ++ [name ++ ".tmp"] <;> simp [hq]
  cases trouble with
  | denied => exact absurd rfl htrouble
  | writing left =>
    cases left with
    | none => simpa [writeAtomically, hparent, writeTemporary] using site.cleanUp ht hspare
    | some left =>
      simpa [writeAtomically, hparent, writeTemporary, site.write_temporary hspare, Except.toOption]
        using hleft left
  | replacing =>
    simpa [writeAtomically, hparent, writeTemporary, site.write_temporary hspare] using hleft bytes

theorem Site.writeAtomically_succeeds (site : Site t target directory name) (ht : t.Sound)
    (hspare : t.at? (directory ++ [name ++ ".tmp"]) ≠ some .directory)
    (hparent : t.exists target.parent = true) (bytes : List UInt8) :
    ∃ t', writeAtomically none t target bytes = (t', .ok ()) ∧ t'.Sound ∧
      ∀ q, t'.at? q =
        if q = directory ++ [name] then some (.file bytes t.nextStamp)
        else if q = directory ++ [name ++ ".tmp"] then none else t.at? q := by
  obtain ⟨hsound, hsite⟩ := site.stampFile ht hspare bytes
  have hwritten : (t.stampFile (directory ++ [name ++ ".tmp"]) bytes).at?
      (directory ++ [name ++ ".tmp"]) = some (.file bytes t.nextStamp) := by
    simp [Tree.at?_stampFile]
  have hdots : ".." ∉ directory ++ [name] := by
    have := ht.not_mem_dots site.inside
    simpa [this] using site.named.symm
  refine ⟨(t.stampFile (directory ++ [name ++ ".tmp"]) bytes).move
    (directory ++ [name ++ ".tmp"]) (directory ++ [name]), ?_, ?_, fun q => ?_⟩
  · simp [writeAtomically, hparent, writeTemporary, site.write_temporary hspare, hsite.spare,
      hsite.bundle, Tree.isDirectoryAt, hsite.free]
  · exact hsound.move_file hwritten (by simp) hdots (by simpa using hsite.inside) hsite.free
  · rw [Tree.at?_move (by simp) (by simp)
      (fun r hr => hsound.at?_below (by simp [hwritten]) hr)
      (fun r hr => hsound.at?_below hsite.free hr), hwritten, Tree.at?_stampFile (by simp)]
    by_cases hq : q = directory ++ [name ++ ".tmp"] <;> simp [hq]

/-! ## What a write leaves behind -/

/-- The bundle is there, the temporary file is not, and all else is as it was. -/
structure Replaced (t t' : Tree) (target : Path) (bytes : List UInt8) : Prop where
  content : t'.read target = .ok bytes
  clean : t'.exists (temporary target) = false
  others : ∀ q, t.place target ≠ .ok q → t.place (temporary target) ≠ .ok q → t'.at? q = t.at? q

/-- The bundle is as it was, there or not, and so is all else; the temporary file is not there. -/
structure Kept (t t' : Tree) (target : Path) : Prop where
  content : t'.get target = t.get target
  clean : t'.exists (temporary target) = false
  others : ∀ q, t.place (temporary target) ≠ .ok q → t'.at? q = t.at? q

theorem Site.replaced (site : Site t target directory name)
    (hspare : t.at? (directory ++ [name ++ ".tmp"]) ≠ some .directory) {bytes : List UInt8}
    {stamp : Nat}
    (h : ∀ q, t'.at? q = if q = directory ++ [name] then some (.file bytes stamp)
      else if q = directory ++ [name ++ ".tmp"] then none else t.at? q) :
    Replaced t t' target bytes := by
  have others : ∀ q, q ≠ directory ++ [name] → q ≠ directory ++ [name ++ ".tmp"] →
      t'.at? q = t.at? q := by
    intro q hbundle hne
    rw [h, if_neg hbundle, if_neg hne]
  have hsite := site.of_directories (site.directories_stay hspare others) (by simp [h])
  refine ⟨?_, ?_, ?_⟩
  · simp [Tree.read, Disk.Tree.get, hsite.bundle, h]
  · simp only [Tree.exists, Disk.Tree.get, hsite.spare, h,
      if_neg (append_tmp_ne_bundle directory name), if_true]
  · intro q hbundle hne
    rw [site.bundle] at hbundle
    rw [site.spare] at hne
    exact others q (fun e => hbundle (e ▸ rfl)) (fun e => hne (e ▸ rfl))

theorem Site.kept (site : Site t target directory name)
    (hspare : t.at? (directory ++ [name ++ ".tmp"]) ≠ some .directory)
    (h : ∀ q, t'.at? q = if q = directory ++ [name ++ ".tmp"] then none else t.at? q) :
    Kept t t' target := by
  have others : ∀ q, q ≠ directory ++ [name ++ ".tmp"] → t'.at? q = t.at? q := by
    intro q hne
    rw [h, if_neg hne]
  have hbundle := others _ (append_tmp_ne_bundle directory name).symm
  have hsite := site.of_directories (site.directories_stay hspare fun q _ => others q)
    (hbundle ▸ site.free)
  refine ⟨?_, ?_, ?_⟩
  · simp only [Disk.Tree.get, hsite.bundle, site.bundle, hbundle]
  · simp [Tree.exists, Disk.Tree.get, hsite.spare, h]
  · intro q hq
    rw [site.spare] at hq
    exact others q fun e => hq (e ▸ rfl)

theorem exists_temporary_of_parent (h : t.exists target.parent = false) :
    t.exists (temporary target) = false := by
  simp only [Tree.exists, Disk.Tree.get, Tree.place, Path.parent, temporary, Path.extended] at h ⊢
  rw [Tree.walk_append]
  cases hwalk : t.walk [] target.parts.dropLast with
  | error r => rfl
  | ok directory =>
    cases hentry : t.at? directory with
    | none => simp [Except.bind, Tree.walk, hentry]
    | some entry => simp [hwalk, hentry] at h

theorem cleanUp_ne_ok (t : Tree) (file : Path) : (Project.cleanUp t file).2 ≠ .ok () := by
  unfold Project.cleanUp
  split
  · simp
  · split <;> simp

theorem Site.get_temporary (site : Site t target directory name) :
    t.get (temporary target) = .ok .directory ↔
      t.at? (directory ++ [name ++ ".tmp"]) = some .directory := by
  simp only [Disk.Tree.get, site.spare]
  cases t.at? (directory ++ [name ++ ".tmp"]) <;> simp

/-- A write succeeds only without trouble, with a directory to write into and nothing in the way. -/
theorem of_writeAtomically_eq_ok {trouble : Option Trouble} {bytes : List UInt8}
    (h : (writeAtomically trouble t target bytes).2 = .ok ()) :
    trouble = none ∧ t.exists target.parent = true ∧ t.get (temporary target) ≠ .ok .directory := by
  cases hparent : t.exists target.parent with
  | false => simp [writeAtomically, hparent] at h
  | true =>
    cases trouble with
    | some trouble =>
      exfalso
      cases trouble with
      | denied => simp [writeAtomically] at h
      | writing left =>
        cases left <;> simp [writeAtomically, hparent, writeTemporary, cleanUp_ne_ok] at h
      | replacing =>
        simp only [writeAtomically, hparent] at h
        cases hwrite : writeTemporary (some .replacing) t (temporary target) bytes with
        | mk t' done => cases done <;> simp [hwrite, cleanUp_ne_ok] at h
    | none =>
      refine ⟨rfl, rfl, fun hget => ?_⟩
      have hwrite : t.write (temporary target) bytes = .error .isDirectory := by
        simp only [Disk.Tree.get] at hget
        cases hplace : t.place (temporary target) with
        | error => simp [hplace] at hget
        | ok place =>
          cases hentry : t.at? place with
          | none => simp [hplace, hentry] at hget
          | some entry => simp_all [Tree.write, Tree.isDirectoryAt]
      simp [writeAtomically, hparent, writeTemporary, hwrite, cleanUp_ne_ok] at h

/-! ## Writes of a bundle -/

theorem exists_site_of_writeAtomically (ht : t.Sound) {previous : Option (List Char)}
    (hprevious : previousText t target = .ok previous) {trouble : Option Trouble}
    {bytes : List UInt8} (h : writeAtomically trouble t target bytes = (t', .ok ())) :
    ∃ directory name, Site t target directory name ∧
      t.at? (directory ++ [name ++ ".tmp"]) ≠ some .directory ∧ t'.Sound ∧
      ∀ q, t'.at? q =
        if q = directory ++ [name] then some (.file bytes t.nextStamp)
        else if q = directory ++ [name ++ ".tmp"] then none else t.at? q := by
  obtain ⟨rfl, hparent, hget⟩ := of_writeAtomically_eq_ok (congrArg Prod.snd h)
  obtain ⟨directory, name, site⟩ := exists_site ht hprevious hparent
  have hspare := mt site.get_temporary.2 hget
  obtain ⟨t₁, heq, hsound, hat⟩ := site.writeAtomically_succeeds ht hspare hparent bytes
  obtain rfl : t₁ = t' := congrArg Prod.fst (heq.symm.trans h)
  exact ⟨directory, name, site, hspare, hsound, hat⟩

theorem exists_writeAtomically (ht : t.Sound) {previous : Option (List Char)}
    (hprevious : previousText t target = .ok previous) (hparent : t.exists target.parent = true)
    (hget : t.get (temporary target) ≠ .ok .directory) (bytes : List UInt8) :
    ∃ t', writeAtomically none t target bytes = (t', .ok ()) := by
  obtain ⟨directory, name, site⟩ := exists_site ht hprevious hparent
  obtain ⟨t', heq, -⟩ :=
    site.writeAtomically_succeeds ht (mt site.get_temporary.2 hget) hparent bytes
  exact ⟨t', heq⟩

/-- A write that fails keeps the bundle. Where nothing may be written, nothing can be removed either,
so there must be no temporary file to begin with. -/
theorem exists_kept (ht : t.Sound) {previous : Option (List Char)}
    (hprevious : previousText t target = .ok previous) {trouble : Option Trouble}
    (hget : t.get (temporary target) ≠ .ok .directory)
    (hdenied : trouble = some .denied → t.exists (temporary target) = false)
    (htrouble : trouble ≠ none ∨ t.exists target.parent = false) (bytes : List UInt8) :
    ∃ t' fault, writeAtomically trouble t target bytes = (t', .error fault) ∧ Kept t t' target := by
  cases hparent : t.exists target.parent with
  | false =>
    refine ⟨t, .noWriteAccess target.parent.text, by simp [writeAtomically, hparent], rfl, ?_, ?_⟩
    · exact exists_temporary_of_parent hparent
    · exact fun _ _ => rfl
  | true =>
    cases trouble with
    | none => simp [hparent] at htrouble
    | some trouble =>
      by_cases hd : trouble = .denied
      · subst hd
        exact ⟨t, .noWriteAccess target.parent.text, by simp [writeAtomically], rfl, hdenied rfl,
          fun _ _ => rfl⟩
      · obtain ⟨directory, name, site⟩ := exists_site ht hprevious hparent
        have hspare := mt site.get_temporary.2 hget
        obtain ⟨t', fault, heq, -, hat⟩ := site.writeAtomically_fails ht hspare hparent hd bytes
        exact ⟨t', fault, heq, site.kept hspare hat⟩

/-- Where a directory is in the way of the temporary file, nothing is written. -/
theorem Site.writeAtomically_blocked (site : Site t target directory name)
    (hspare : t.at? (directory ++ [name ++ ".tmp"]) = some .directory) (trouble : Option Trouble)
    (bytes : List UInt8) : (writeAtomically trouble t target bytes).1 = t := by
  have hwrite : ∀ bytes, t.write (temporary target) bytes = .error .isDirectory := by
    simp [Tree.write, site.spare, Tree.isDirectoryAt, hspare]
  have htemporary : trouble ≠ some .denied →
      writeTemporary trouble t (temporary target) bytes = (t, false) := by
    intro _
    unfold writeTemporary
    split
    · rfl
    · simp [hwrite, Except.toOption]
    · simp [hwrite]
  unfold writeAtomically
  split
  · rfl
  · rename_i h
    rw [htemporary fun hdenied => h (by simp [hdenied])]
    simp [Project.cleanUp, site.spare, hspare]

/-- What a write that fails can have done: nothing, or it has removed the temporary file. -/
theorem of_writeAtomically_eq_error (ht : t.Sound) {previous : Option (List Char)}
    (hprevious : previousText t target = .ok previous) {trouble : Option Trouble}
    {bytes : List UInt8} {fault : Fault}
    (h : writeAtomically trouble t target bytes = (t', .error fault)) :
    t' = t ∨ t'.Sound ∧ ∃ directory name, Site t target directory name ∧
      ∀ q, t'.at? q = if q = directory ++ [name ++ ".tmp"] then none else t.at? q := by
  by_cases hopen : trouble = some .denied ∨ t.exists target.parent = false
  · have hclosed : (decide (trouble = some .denied) || !t.exists target.parent) = true := by
      simpa using hopen
    simp only [writeAtomically, if_pos hclosed, Prod.mk.injEq] at h
    exact .inl h.1.symm
  · simp only [not_or, Bool.not_eq_false] at hopen
    obtain ⟨hdenied, hparent⟩ := hopen
    obtain ⟨directory, name, site⟩ := exists_site ht hprevious hparent
    by_cases hspare : t.at? (directory ++ [name ++ ".tmp"]) = some .directory
    · have hsame := site.writeAtomically_blocked hspare trouble bytes
      rw [h] at hsame
      exact .inl hsame
    · cases trouble with
      | none =>
        obtain ⟨t₁, heq, -⟩ := site.writeAtomically_succeeds ht hspare hparent bytes
        cases heq.symm.trans h
      | some trouble =>
        have htrouble : trouble ≠ .denied := fun hd => hdenied (hd ▸ rfl)
        obtain ⟨t₁, fault', heq, hsound, hat⟩ :=
          site.writeAtomically_fails ht hspare hparent htrouble bytes
        obtain rfl : t₁ = t' := congrArg Prod.fst (heq.symm.trans h)
        exact .inr ⟨hsound, directory, name, site, hat⟩

theorem nextStamp_of_writeAtomically {trouble : Option Trouble} {bytes : List UInt8}
    (h : writeAtomically trouble t target bytes = (t', .ok ())) :
    t'.nextStamp = t.nextStamp + 1 := by
  obtain ⟨rfl, hparent, hget⟩ := of_writeAtomically_eq_ok (congrArg Prod.snd h)
  simp only [writeAtomically, hparent, writeTemporary] at h
  cases hwrite : t.write (temporary target) bytes with
  | error r =>
    simp only [hwrite] at h
    exact absurd (congrArg Prod.snd h) (cleanUp_ne_ok _ _)
  | ok t₁ =>
    have hstamp : t₁.nextStamp = t.nextStamp + 1 := by
      unfold Tree.write at hwrite
      split at hwrite
      · cases hwrite
      · split at hwrite
        · cases hwrite
        · cases hwrite
          rfl
    simp only [hwrite] at h
    split at h
    · cases h
    · split at h
      · split at h
        · exact absurd (congrArg Prod.snd h) (cleanUp_ne_ok _ _)
        · obtain rfl := congrArg Prod.fst h
          exact hstamp
      · exact absurd (congrArg Prod.snd h) (cleanUp_ne_ok _ _)

end

end ElementBundle.Project
