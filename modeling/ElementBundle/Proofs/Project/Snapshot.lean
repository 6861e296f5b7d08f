import ElementBundle.Project.Watch
import ElementBundle.Proofs.Project.Repeat

/-! # What a look sees

A look at the components sees stamp and size of each file with the extension, so two looks differ
exactly where these do. A build changes at most two files: it stamps the bundle anew, and it removes
the temporary file. Whether the next look sees that depends on the places and names of these two only;
that discovery leaves out the bundle does not matter to it.
-/

namespace ElementBundle.Disk

def Tree.signature? (t : Tree) (q : List String) : Option (Nat × Nat) :=
  match t.at? q with
  | some (.file bytes stamp) => some (stamp, bytes.length)
  | _ => none

def Tree.Stamped (t : Tree) : Prop :=
  ∀ q bytes stamp, t.at? q = some (.file bytes stamp) → stamp < t.nextStamp

def Entry.olderThan (n : Nat) : Entry → Bool
  | .directory => true
  | .file _ stamp => stamp < n

theorem Tree.stamped_of_all {t : Tree} (h : t.entries.all (·.2.olderThan t.nextStamp) = true) :
    t.Stamped := by
  intro q bytes stamp hfile
  have hne : q ≠ [] := by
    rintro rfl
    cases hfile
  have := List.all_eq_true.1 h _ (Tree.mem_of_at? hfile hne)
  simpa [Entry.olderThan] using this

theorem Tree.signature?_congr {t t' : Tree} {q : List String} (h : t'.at? q = t.at? q) :
    t'.signature? q = t.signature? q := by
  unfold Tree.signature?
  rw [h]

theorem Tree.signature?_of_none {t : Tree} {q : List String} (h : t.at? q = none) :
    t.signature? q = none := by
  unfold Tree.signature?
  rw [h]

theorem Tree.signature?_eq_some_iff {t : Tree} {q : List String} {stamp size : Nat} :
    t.signature? q = some (stamp, size) ↔
      ∃ bytes, t.at? q = some (.file bytes stamp) ∧ bytes.length = size := by
  unfold Tree.signature?
  split
  · rename_i bytes stamp' h
    simp only [h, Option.some.injEq, Prod.mk.injEq, Entry.file.injEq]
    constructor
    · rintro ⟨rfl, rfl⟩
      exact ⟨bytes, ⟨rfl, rfl⟩, rfl⟩
    · rintro ⟨_, ⟨rfl, rfl⟩, rfl⟩
      exact ⟨rfl, rfl⟩
  · rename_i h
    simp only [reduceCtorEq, false_iff, not_exists, not_and]
    exact fun bytes hfile => absurd hfile (h bytes stamp)

end ElementBundle.Disk

namespace ElementBundle.Project

open ElementBundle.Disk ElementBundle.Text

/-! ## Looks -/

section
variable {t t' : Tree} {directory : Path} {extension name : String}

theorem mem_snapshot_iff (ht : t.Sound) (hdots : ".." ∉ directory.parts) {σ : Nat × Nat} :
    (name, σ) ∈ snapshot t directory extension ↔
      suffix name = extension ∧ t.signature? (directory.parts ++ [name]) = some σ := by
  obtain ⟨stamp, size⟩ := σ
  rw [Tree.signature?_eq_some_iff]
  constructor
  · intro h
    unfold snapshot at h
    split at h
    · cases h
    · rename_i place hplace
      split at h
      · obtain rfl := Tree.walk_of_not_mem_dots hdots hplace
        obtain ⟨⟨name', entry⟩, hchild, hentry⟩ := List.mem_filterMap.1 h
        cases entry with
        | directory => cases hentry
        | file bytes stamp' =>
          simp only [beq_iff_eq, Option.ite_none_right_eq_some, Option.some.injEq,
            Prod.mk.injEq] at hentry
          obtain ⟨hsuffix, rfl, rfl, rfl⟩ := hentry
          exact ⟨hsuffix, bytes, (mem_children_iff ht).1 hchild, rfl⟩
      · cases h
  · rintro ⟨hsuffix, bytes, hfile, rfl⟩
    have hparent : t.at? directory.parts = some .directory := by
      simpa using ht.parent hfile
    have hplace : t.place directory = .ok directory.parts := ht.walk_place hparent
    simp only [snapshot, hplace, Tree.isDirectoryAt, hparent, beq_self_eq_true, if_true]
    exact List.mem_filterMap.2 ⟨_, (mem_children_iff ht).2 hfile, by simp [hsuffix]⟩

theorem nodup_snapshot (ht : t.Sound) : ((snapshot t directory extension).map (·.1)).Nodup := by
  unfold snapshot
  split
  · exact List.nodup_nil
  · split
    · rename_i place _ _
      refine List.pairwise_map.2 (List.Pairwise.filterMap _ ?_
        (List.pairwise_map.1 (nodup_children ht place)))
      rintro ⟨name, entry⟩ ⟨name', entry'⟩ hne b hb b' hb'
      cases entry with
      | directory => cases hb
      | file =>
        cases entry' with
        | directory => cases hb'
        | file =>
          simp only [beq_iff_eq, Option.ite_none_right_eq_some, Option.some.injEq] at hb hb'
          obtain ⟨-, rfl⟩ := hb
          obtain ⟨-, rfl⟩ := hb'
          exact hne
    · exact List.nodup_nil

theorem lookup_snapshot (ht : t.Sound) (hdots : ".." ∉ directory.parts) (name : String) :
    (snapshot t directory extension).lookup name =
      if suffix name = extension then t.signature? (directory.parts ++ [name]) else none := by
  ext σ
  rw [lookup_eq_some_iff_mem (nodup_snapshot ht), mem_snapshot_iff ht hdots]
  by_cases h : suffix name = extension <;> simp [h]

theorem mem_changedNames {before after : Snapshot} :
    name ∈ changedNames before after ↔ before.lookup name ≠ after.lookup name := by
  simp only [changedNames, List.mem_mergeSort, List.mem_filter, List.mem_eraseDups, List.mem_map,
    List.mem_append, bne_iff_ne, ne_eq, and_iff_right_iff_imp]
  intro h
  cases hbefore : before.lookup name with
  | some σ =>
    obtain ⟨front, back, rfl, -⟩ := List.lookup_eq_some_iff.1 hbefore
    exact ⟨(name, σ), by simp, rfl⟩
  | none =>
    cases hafter : after.lookup name with
    | some σ =>
      obtain ⟨front, back, rfl, -⟩ := List.lookup_eq_some_iff.1 hafter
      exact ⟨(name, σ), by simp, rfl⟩
    | none => exact absurd (hbefore.trans hafter.symm) h

theorem changedNames_eq_nil_iff {before after : Snapshot} :
    changedNames before after = [] ↔ ∀ name, before.lookup name = after.lookup name := by
  simp only [List.eq_nil_iff_forall_not_mem, mem_changedNames, ne_eq, not_not]

/-- A watcher notices a name exactly if its file has another stamp or size. -/
theorem mem_poll_iff (ht : t.Sound) (ht' : t'.Sound) (hdots : ".." ∉ directory.parts) :
    name ∈ ((Watcher.start t directory extension).poll t').1 ↔ suffix name = extension ∧
      t.signature? (directory.parts ++ [name]) ≠ t'.signature? (directory.parts ++ [name]) := by
  show name ∈ changedNames (snapshot t directory extension) (snapshot t' directory extension) ↔ _
  rw [mem_changedNames, lookup_snapshot ht hdots, lookup_snapshot ht' hdots]
  by_cases h : suffix name = extension <;> simp [h]

end

/-- A file at this path is seen by looks at the components. -/
def Settings.Watches (s : Settings) (t : Tree) (path : Path) : Prop :=
  ∃ directory name, s.componentsPath = .ok directory ∧
    t.place path = .ok (directory.parts ++ [name]) ∧ suffix name = s.extension

theorem Settings.not_watches_of_name {s : Settings} {t : Tree} {path : Path}
    (hname : path.name ≠ "..") (hsuffix : suffix path.name ≠ s.extension) : ¬ s.Watches t path := by
  rintro ⟨directory, name, -, hplace, hext⟩
  exact hsuffix (Tree.name_of_place hname hplace ▸ hext)

/-! ## Builds -/

/-- The build has returned, and it has written its bundle. -/
def Pass.written (p : Pass) : Bool :=
  p.outcome.toOption.any (·.written)

/-- What a build can leave of a tree, and whether it has written its bundle. -/
inductive Settings.Leaves (s : Settings) (t : Tree) : Bool → Tree → Prop
  | alone : Leaves s t false t
  | cleaned {t' : Tree} {path : Path} {place : List String} {name : String}
    (path_eq : s.outputPath = .ok path) (site : Site t path place name)
    (after : ∀ q, t'.at? q = if q = place ++ [name ++ ".tmp"] then none else t.at? q) :
    Leaves s t false t'
  | replaced {t' : Tree} {path : Path} {place : List String} {name : String} {bytes : List UInt8}
    (path_eq : s.outputPath = .ok path) (site : Site t path place name)
    (after : ∀ q, t'.at? q = if q = place ++ [name] then some (.file bytes t.nextStamp)
      else if q = place ++ [name ++ ".tmp"] then none else t.at? q)
    (stamped : t'.nextStamp = t.nextStamp + 1) : Leaves s t true t'

theorem build_leaves {s : Settings} {t : Tree} (ht : t.Sound) (p : Component.Pipeline)
    (stage : Stage) (quiet dryRun : Bool) (trouble : Option Trouble) :
    s.Leaves t (s.build p stage t quiet dryRun trouble).written
        (s.build p stage t quiet dryRun trouble).tree ∧
      (s.build p stage t quiet dryRun trouble).tree.Sound := by
  rcases build_faults_or_surveyed s p stage t quiet with ⟨fault, hfault⟩ | ⟨r, hr⟩
  · obtain ⟨houtcome, htree⟩ := hfault dryRun trouble
    rw [Pass.written, houtcome, htree]
    exact ⟨.alone, ht⟩
  · obtain ⟨houtcome, -, htree⟩ := hr.build_eq p stage quiet dryRun trouble
    rw [Pass.written, houtcome, htree]
    by_cases hheld : r.failures ≠ [] ∧ s.onError = .abort
    · obtain ⟨hok, -, hsame⟩ := @conclude_of_withheld s trouble quiet dryRun t r hheld
      rw [hok, hsame]
      simp only [Except.toOption, Option.any_some, hr.written]
      exact ⟨.alone, ht⟩
    · cases dryRun with
      | true =>
        obtain ⟨hok, -, hsame⟩ := @conclude_of_dry s trouble quiet t r hheld
        rw [hok, hsame]
        simp only [Except.toOption, Option.any_some, hr.written]
        exact ⟨.alone, ht⟩
      | false =>
        cases hwrite : writeAtomically trouble t r.path (encodeUtf8 r.output) with
        | mk t' written =>
          cases written with
          | error fault =>
            obtain ⟨herror, hleft⟩ := @conclude_of_error s trouble quiet t r t' fault hheld hwrite
            rw [herror, hleft]
            rcases of_writeAtomically_eq_error ht hr.previous hwrite with
              rfl | ⟨hsound, place, name, site, hat⟩
            · exact ⟨.alone, ht⟩
            · exact ⟨.cleaned hr.path site hat, hsound⟩
          | ok =>
            obtain ⟨hok, -, hleft⟩ := @conclude_of_ok s trouble quiet t r t' hheld hwrite
            rw [hok, hleft]
            obtain ⟨place, name, site, -, hsound, hat⟩ :=
              exists_site_of_writeAtomically ht hr.previous hwrite
            exact ⟨.replaced hr.path site hat (nextStamp_of_writeAtomically hwrite), hsound⟩

section
variable {s : Settings} {t t' : Tree} {written : Bool} {q : List String}

/-- A place is as it was, or it is the place of the bundle or of the temporary file. -/
theorem Settings.Leaves.at?_cases (h : s.Leaves t written t') (q : List String) :
    t'.at? q = t.at? q ∨ ∃ path place name, s.outputPath = .ok path ∧ Site t path place name ∧
      (written = true ∧ q = place ++ [name] ∨ q = place ++ [name ++ ".tmp"] ∧ t'.at? q = none) := by
  cases h with
  | alone => exact .inl rfl
  | @cleaned _ path place name path_eq site after =>
    by_cases hspare : q = place ++ [name ++ ".tmp"]
    · exact .inr ⟨path, place, name, path_eq, site, .inr ⟨hspare, by rw [after, if_pos hspare]⟩⟩
    · exact .inl (by rw [after, if_neg hspare])
  | @replaced _ path place name bytes path_eq site after =>
    by_cases hbundle : q = place ++ [name]
    · exact .inr ⟨path, place, name, path_eq, site, .inl ⟨rfl, hbundle⟩⟩
    · by_cases hspare : q = place ++ [name ++ ".tmp"]
      · have hnone : t'.at? q = none := by rw [after, if_neg hbundle, if_pos hspare]
        exact .inr ⟨path, place, name, path_eq, site, .inr ⟨hspare, hnone⟩⟩
      · exact .inl (by rw [after, if_neg hbundle, if_neg hspare])

/-- What a build can change, as a look sees it: the bundle, or the temporary file, which has gone. -/
theorem Settings.Leaves.of_signature_ne (h : s.Leaves t written t')
    (hne : t.signature? q ≠ t'.signature? q) :
    ∃ path, s.outputPath = .ok path ∧ (written = true ∧ t.place path = .ok q ∨
      t.place (temporary path) = .ok q ∧ (t.signature? q).isSome ∧ t'.at? q = none) := by
  rcases h.at?_cases q with same | ⟨path, place, name, hpath, site, ⟨hwritten, hq⟩ | ⟨hq, hnone⟩⟩
  · exact absurd (Tree.signature?_congr same).symm hne
  · exact ⟨path, hpath, .inl ⟨hwritten, hq ▸ site.bundle⟩⟩
  · rw [Tree.signature?_of_none hnone] at hne
    exact ⟨path, hpath, .inr ⟨hq ▸ site.spare, Option.isSome_iff_ne_none.2 hne, hnone⟩⟩

theorem Settings.Leaves.signature_bundle (h : s.Leaves t true t') (hstamped : t.Stamped) {path : Path}
    (hpath : s.outputPath = .ok path) (hplace : t.place path = .ok q) :
    t.signature? q ≠ t'.signature? q := by
  cases h with
  | @replaced _ path' place name bytes path_eq site after =>
    obtain rfl := Except.ok.inj (path_eq.symm.trans hpath)
    obtain rfl := Except.ok.inj (site.bundle.symm.trans hplace)
    have hnew : t'.signature? (place ++ [name]) = some (t.nextStamp, bytes.length) :=
      Tree.signature?_eq_some_iff.2 ⟨bytes, by rw [after, if_pos rfl], rfl⟩
    rw [hnew]
    intro hold
    obtain ⟨bytes', hfile, -⟩ := Tree.signature?_eq_some_iff.1 hold
    exact Nat.lt_irrefl _ (hstamped _ _ _ hfile)

theorem Settings.Leaves.stamped (h : s.Leaves t true t') (hstamped : t.Stamped) : t'.Stamped := by
  cases h with
  | @replaced _ path place name bytes path_eq site after next =>
    intro q bytes' stamp hfile
    rw [after] at hfile
    by_cases hbundle : q = place ++ [name]
    · rw [if_pos hbundle] at hfile
      cases hfile
      omega
    · by_cases hspare : q = place ++ [name ++ ".tmp"]
      · rw [if_neg hbundle, if_pos hspare] at hfile
        cases hfile
      · rw [if_neg hbundle, if_neg hspare] at hfile
        have := hstamped q bytes' stamp hfile
        omega

end

end ElementBundle.Project
