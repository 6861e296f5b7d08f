import ElementBundle.Disk.Tree
import Mathlib.Data.List.Induction
import Mathlib.Data.List.Nodup

/-! # Trees that a disk can hold

The entries of a tree are a list, and not every list is a disk. In a sound tree a place has one
entry, and each entry stands in a directory; so nothing stands below a file. The lemmas say what each
operation does to the entry at a place, and where a path leads afterwards. Later proofs use them and
no longer see the list.
-/

namespace ElementBundle.Disk

/-- What a disk can hold. -/
structure Tree.Sound (t : Tree) : Prop where
  distinct : (t.entries.map (·.1)).Nodup
  /-- Two dots name no entry. -/
  named : ∀ e ∈ t.entries, ".." ∉ e.1
  inside : ∀ e ∈ t.entries, e.1 ≠ [] ∧ t.at? e.1.dropLast = some .directory

section
variable {t : Tree} {place q : List String} {entry : Entry}

@[simp] theorem Tree.at?_nil (t : Tree) : t.at? [] = some .directory := rfl

theorem Tree.at?_of_ne_nil (hq : q ≠ []) : t.at? q = t.entries.lookup q := by
  simp [Tree.at?, hq]

theorem Tree.mem_of_at? (h : t.at? q = some entry) (hq : q ≠ []) : (q, entry) ∈ t.entries := by
  rw [Tree.at?_of_ne_nil hq] at h
  obtain ⟨front, back, hsplit, -⟩ := List.lookup_eq_some_iff.1 h
  simp [hsplit]

theorem lookup_eq_some_iff_mem {α β : Type} [BEq α] [LawfulBEq α] {l : List (α × β)} {k : α} {v : β}
    (hkeys : (l.map (·.1)).Nodup) : l.lookup k = some v ↔ (k, v) ∈ l := by
  constructor
  · intro h
    obtain ⟨front, back, hsplit, -⟩ := List.lookup_eq_some_iff.1 h
    simp [hsplit]
  · intro h
    obtain ⟨front, back, hsplit⟩ := List.append_of_mem h
    refine List.lookup_eq_some_iff.2 ⟨front, back, hsplit, ?_⟩
    intro e he
    simp only [hsplit, List.map_append, List.map_cons, List.nodup_append] at hkeys
    have := hkeys.2.2 e.1 (List.mem_map_of_mem he) k List.mem_cons_self
    simpa using this.symm

theorem Tree.Sound.at?_of_mem (ht : t.Sound) (h : (q, entry) ∈ t.entries) :
    t.at? q = some entry := by
  rw [Tree.at?_of_ne_nil (ht.inside _ h).1]
  exact (lookup_eq_some_iff_mem ht.distinct).2 h

theorem Tree.Sound.parent (ht : t.Sound) (h : t.at? q = some entry) :
    t.at? q.dropLast = some .directory := by
  by_cases hq : q = []
  · simp [hq]
  · exact (ht.inside _ (Tree.mem_of_at? h hq)).2

theorem Tree.Sound.at?_below (ht : t.Sound) (hplace : t.at? place ≠ some .directory) (hq : q ≠ []) :
    t.at? (place ++ q) = none := by
  -- From the end of `q`: what stands there stands in a directory, which is again below.
  induction q using List.reverseRecOn with
  | nil => exact absurd rfl hq
  | append_singleton q name ih =>
    by_contra h
    obtain ⟨entry, hentry⟩ := Option.ne_none_iff_exists'.1 h
    have hparent := ht.parent hentry
    rw [← List.append_assoc, List.dropLast_concat] at hparent
    by_cases hnil : q = []
    · simp [hnil] at hparent
      exact hplace hparent
    · rw [ih hnil] at hparent
      cases hparent

/-! ## Entries after an operation -/

theorem lookup_filter_place (keep : List String → Bool) (q : List String)
    (entries : List (List String × Entry)) :
    (entries.filter fun e => keep e.1).lookup q = if keep q then entries.lookup q else none := by
  induction entries with
  | nil => simp
  | cons e entries ih =>
    obtain ⟨key, entry⟩ := e
    by_cases hkey : q = key
    · subst hkey
      by_cases hq : keep q <;> simp [hq, ih]
    · have hne : (q == key) = false := by simpa using hkey
      by_cases hk : keep key <;> simp [List.lookup_cons, hk, hne, ih]

theorem Tree.at?_put (hplace : place ≠ []) :
    (t.put place entry).at? q = if q = place then some entry else t.at? q := by
  by_cases hq : q = []
  · simp [hq, hplace.symm]
  · rw [Tree.at?_of_ne_nil hq, Tree.at?_of_ne_nil hq, Tree.put, List.lookup_cons]
    have := lookup_filter_place (fun p => decide (p ≠ place)) q t.entries
    by_cases hqp : q = place
    · simp [hqp]
    · have hne : (q == place) = false := by simpa using hqp
      simpa [hqp, hne] using this

theorem Tree.at?_stampFile (hplace : place ≠ []) (bytes : List UInt8) :
    (t.stampFile place bytes).at? q =
      if q = place then some (.file bytes t.nextStamp) else t.at? q :=
  Tree.at?_put hplace

theorem Tree.at?_erase (hplace : place ≠ []) :
    (t.erase place).at? q = if place <+: q then none else t.at? q := by
  by_cases hq : q = []
  · simp [hq, hplace]
  · rw [Tree.at?_of_ne_nil hq, Tree.at?_of_ne_nil hq, Tree.erase,
      lookup_filter_place (fun p => !place.isPrefixOf p)]
    by_cases hunder : place <+: q
    · simp [hunder, List.isPrefixOf_iff_prefix.2 hunder]
    · have : place.isPrefixOf q = false := by simpa [← List.isPrefixOf_iff_prefix] using hunder
      simp [hunder, this]

theorem Tree.at?_erase_of_bare (hplace : place ≠ []) (bare : ∀ r ≠ [], t.at? (place ++ r) = none) :
    (t.erase place).at? q = if q = place then none else t.at? q := by
  rw [Tree.at?_erase hplace]
  by_cases hunder : place <+: q
  · obtain ⟨r, rfl⟩ := hunder
    by_cases hr : r = []
    · simp [hr]
    · simp [hr, bare r hr]
  · have : q ≠ place := by
      rintro rfl
      exact hunder (List.prefix_refl q)
    simp [hunder, this]

theorem Tree.eq_of_bare (bare : ∀ r ≠ [], t.at? (place ++ r) = none) {e : List String × Entry}
    (he : e ∈ t.entries) (hunder : place <+: e.1) : e.1 = place := by
  obtain ⟨r, hr⟩ := hunder
  by_cases hnil : r = []
  · simpa [hnil] using hr.symm
  · have hnone := bare r hnil
    rw [Tree.at?_of_ne_nil (by simp [hnil]), List.lookup_eq_none_iff] at hnone
    simpa [hr] using hnone e he

theorem lookup_moved (q target : List String) {source : List String}
    {entries : List (List String × Entry)} (bare : ∀ e ∈ entries, source <+: e.1 → e.1 = source) :
    (entries.filterMap fun (q, entry) =>
      if source.isPrefixOf q then some (target ++ q.drop source.length, entry) else none).lookup q =
      if q = target then entries.lookup source else none := by
  induction entries with
  | nil => simp
  | cons e entries ih =>
    obtain ⟨key, entry⟩ := e
    have hbare := List.forall_mem_cons.1 bare
    by_cases hkey : key = source
    · subst hkey
      by_cases hq : q = target
      · simp [hq]
      · have hne : (q == target) = false := by simpa using hq
        simpa [hq, List.lookup_cons, hne] using ih hbare.2
    · have hunder : ¬ source <+: key := fun h => hkey (hbare.1 h)
      have hne : (source == key) = false := by simpa using fun h => hkey h.symm
      simpa [List.filterMap_cons, hunder, List.lookup_cons, hne] using ih hbare.2

theorem Tree.at?_move {source target : List String} (hsource : source ≠ []) (htarget : target ≠ [])
    (bare : ∀ r ≠ [], t.at? (source ++ r) = none) (free : ∀ r ≠ [], t.at? (target ++ r) = none) :
    (t.move source target).at? q =
      if q = target then t.at? source else if q = source then none else t.at? q := by
  have hrest : ((t.erase source).erase target).at? q =
      if q = target then none else if q = source then none else t.at? q := by
    rw [Tree.at?_erase_of_bare htarget, Tree.at?_erase_of_bare hsource bare]
    intro r hr
    rw [Tree.at?_erase_of_bare hsource bare, free r hr, ite_self]
  by_cases hq : q = []
  · subst hq
    simp [hsource.symm, htarget.symm]
  · have hmoved := lookup_moved q target fun e he => Tree.eq_of_bare bare (e := e) he
    rw [Tree.at?_of_ne_nil hq] at hrest
    rw [Tree.at?_of_ne_nil hq, Tree.move, List.lookup_append, hmoved, hrest,
      Tree.at?_of_ne_nil hsource]
    by_cases hqt : q = target <;> simp [hqt]

/-! ## Where paths lead -/

theorem Tree.walk_append (t : Tree) (place front back : List String) :
    t.walk place (front ++ back) = (t.walk place front).bind (t.walk · back) := by
  induction front generalizing place with
  | nil => rfl
  | cons p front ih =>
    simp only [List.cons_append, Tree.walk]
    split <;> simp [ih, Except.bind]

theorem Tree.walk_single (name : String) (hname : name ≠ "..") (h : t.at? place = some .directory) :
    t.walk place [name] = .ok (place ++ [name]) := by
  simp [Tree.walk, h, hname]

theorem Tree.walk_of_directories {t' : Tree} {ps : List String}
    (stay : ∀ r, t.at? r = some .directory → t'.at? r = some .directory)
    (h : t.walk place ps = .ok q) : t'.walk place ps = .ok q := by
  induction ps generalizing place with
  | nil => exact h
  | cons p ps ih =>
    simp only [Tree.walk] at h ⊢
    split at h
    · cases h
    · cases h
    · rename_i hdir
      simp only [stay _ hdir]
      exact ih h

/-- Directories only decide whether a path leads anywhere, not where. -/
theorem Tree.walk_unique {t' : Tree} {q' ps : List String} (h : t.walk place ps = .ok q)
    (h' : t'.walk place ps = .ok q') : q = q' := by
  induction ps generalizing place with
  | nil => exact Except.ok.inj (h.symm.trans h')
  | cons p ps ih =>
    simp only [Tree.walk] at h h'
    split at h
    · cases h
    · cases h
    · split at h'
      · cases h'
      · cases h'
      · exact ih h h'

theorem Tree.walk_of_not_mem_dots {ps : List String} (hdots : ".." ∉ ps)
    (h : t.walk place ps = .ok q) : q = place ++ ps := by
  induction ps generalizing place with
  | nil => simpa using (Except.ok.inj h).symm
  | cons p ps ih =>
    simp only [List.mem_cons, not_or] at hdots
    simp only [Tree.walk, if_neg (Ne.symm hdots.1)] at h
    split at h
    · cases h
    · cases h
    · simpa using ih hdots.2 h

/-- A path leads to a place of its own name, unless it ends in two dots. -/
theorem Tree.name_of_place {path : Path} {front : List String} {name : String}
    (hname : path.name ≠ "..") (h : t.place path = .ok (front ++ [name])) : path.name = name := by
  obtain ⟨parts⟩ := path
  rcases List.eq_nil_or_concat parts with rfl | ⟨above, last, rfl⟩
  · have := congrArg List.length (Except.ok.inj h)
    simp at this
  · rw [List.concat_eq_append] at hname h ⊢
    have hlast : Path.name ⟨above ++ [last]⟩ = last := by simp [Path.name]
    rw [hlast] at hname ⊢
    rw [Tree.place, Tree.walk_append] at h
    cases hwalk : t.walk [] above with
    | error r => simp [hwalk, Except.bind] at h
    | ok q =>
      simp only [hwalk, Except.bind, Tree.walk, if_neg hname] at h
      split at h
      · cases h
      · cases h
      · have hsame := congrArg List.getLast? (Except.ok.inj h)
        simpa using hsame

theorem Tree.exists_parent_of_read {path : Path} {bytes : List UInt8}
    (h : t.read path = .ok bytes) : t.exists path.parent = true := by
  obtain ⟨parts⟩ := path
  induction parts using List.reverseRecOn with
  | nil => cases h
  | append_singleton front name =>
    simp only [Tree.read, Tree.get, Tree.place, Tree.walk_append] at h
    simp only [Tree.exists, Tree.get, Tree.place, Path.parent, List.dropLast_concat]
    cases hwalk : t.walk [] front with
    | error r => simp [hwalk, Except.bind] at h
    | ok place =>
      simp only [hwalk, Except.bind, Tree.walk] at h
      cases hentry : t.at? place with
      | none => simp [hentry] at h
      | some entry => simp [hentry]

theorem Tree.Sound.not_mem_dots (ht : t.Sound) (h : t.at? q = some entry) : ".." ∉ q := by
  by_cases hq : q = []
  · simp [hq]
  · exact ht.named _ (Tree.mem_of_at? h hq)

theorem Tree.Sound.walk_place (ht : t.Sound) (h : t.at? q = some entry) : t.walk [] q = .ok q := by
  induction q using List.reverseRecOn generalizing entry with
  | nil => rfl
  | append_singleton q name ih =>
    have hparent := ht.parent h
    rw [List.dropLast_concat] at hparent
    have hname : name ≠ ".." := by
      rintro rfl
      exact ht.not_mem_dots h (by simp)
    simp [Tree.walk_append, ih hparent, Except.bind, Tree.walk_single name hname hparent]

/-! ## Operations keep a tree sound -/

theorem Tree.nodup_put (h : (t.entries.map (·.1)).Nodup) (place : List String) (entry : Entry) :
    ((t.put place entry).entries.map (·.1)).Nodup := by
  simp only [Tree.put, List.map_cons, List.nodup_cons]
  exact ⟨by simp, h.sublist (List.filter_sublist.map _)⟩

theorem Tree.Sound.put_file (ht : t.Sound) (hplace : place ≠ []) (hdots : ".." ∉ place)
    (hparent : t.at? place.dropLast = some .directory) (hfree : t.at? place ≠ some .directory)
    (bytes : List UInt8) (stamp : Nat) : (t.put place (.file bytes stamp)).Sound := by
  have hself : place.dropLast ≠ place := by
    intro h
    have := congrArg List.length h
    have := List.length_pos_iff.2 hplace
    simp at *
    omega
  refine ⟨?_, ?_, ?_⟩
  · exact Tree.nodup_put ht.distinct place _
  · intro e he
    rcases List.mem_cons.1 he with rfl | he
    · exact hdots
    · exact ht.named e (List.mem_filter.1 he).1
  · intro e he
    rcases List.mem_cons.1 he with rfl | he
    · exact ⟨hplace, by rw [Tree.at?_put hplace, if_neg hself, hparent]⟩
    · obtain ⟨hne, hdir⟩ := ht.inside e (List.mem_filter.1 he).1
      have hother : e.1.dropLast ≠ place := fun h => hfree (h ▸ hdir)
      exact ⟨hne, by rw [Tree.at?_put hplace, if_neg hother, hdir]⟩

theorem Tree.Sound.erase (ht : t.Sound) (hplace : place ≠ []) : (t.erase place).Sound := by
  refine ⟨?_, ?_, ?_⟩
  · exact ht.distinct.sublist (List.filter_sublist.map _)
  · intro e he
    exact ht.named e (List.mem_filter.1 he).1
  · intro e he
    obtain ⟨hmem, hkept⟩ := List.mem_filter.1 he
    obtain ⟨hne, hparent⟩ := ht.inside e hmem
    refine ⟨hne, ?_⟩
    have hunder : ¬ place <+: e.1.dropLast := by
      intro h
      have := h.trans (List.dropLast_prefix e.1)
      simp [List.isPrefixOf_iff_prefix.2 this] at hkept
    rw [Tree.at?_erase hplace, if_neg hunder, hparent]

theorem Tree.Sound.filterMap_moved (ht : t.Sound) {source : List String} (target : List String)
    (hsource : (source, entry) ∈ t.entries) (bare : ∀ r ≠ [], t.at? (source ++ r) = none) :
    (t.entries.filterMap fun (q, entry) =>
      if source.isPrefixOf q then some (target ++ q.drop source.length, entry) else none) =
      [(target, entry)] := by
  obtain ⟨front, back, hsplit⟩ := List.append_of_mem hsource
  have hkeys := ht.distinct
  simp only [hsplit, List.map_append, List.map_cons, List.nodup_append, List.nodup_cons] at hkeys
  have hnone : ∀ e ∈ t.entries, e.1 ≠ source → ¬ source <+: e.1 :=
    fun e he hne h => hne (Tree.eq_of_bare bare he h)
  have hfront : ∀ e ∈ front, ¬ source <+: e.1 := fun e he =>
    hnone e (by simp [hsplit, he]) (hkeys.2.2 e.1 (List.mem_map_of_mem he) source List.mem_cons_self)
  have hback : ∀ e ∈ back, ¬ source <+: e.1 := fun e he =>
    hnone e (by simp [hsplit, he]) fun h => hkeys.2.1.1 (h ▸ List.mem_map_of_mem he)
  rw [hsplit, List.filterMap_append, List.filterMap_cons,
    List.filterMap_eq_nil_iff.2 fun e he => by simp [hfront e he],
    List.filterMap_eq_nil_iff.2 fun e he => by simp [hback e he]]
  simp

theorem Tree.Sound.move_file (ht : t.Sound) {source target : List String} {bytes : List UInt8}
    {stamp : Nat} (hsource : t.at? source = some (.file bytes stamp)) (htarget : target ≠ [])
    (hdots : ".." ∉ target) (hparent : t.at? target.dropLast = some .directory)
    (hfree : t.at? target ≠ some .directory) : (t.move source target).Sound := by
  have hne : source ≠ [] := by
    rintro rfl
    cases hsource
  have bare : ∀ r ≠ [], t.at? (source ++ r) = none :=
    fun r hr => ht.at?_below (by simp [hsource]) hr
  have free : ∀ r ≠ [], t.at? (target ++ r) = none := fun r hr => ht.at?_below hfree hr
  have hmoved := ht.filterMap_moved target (Tree.mem_of_at? hsource hne) bare
  have hdir : ∀ q, t.at? q = some .directory → (t.move source target).at? q = some .directory := by
    intro q hq
    have hqt : q ≠ target := fun h => hfree (h ▸ hq)
    have hqs : q ≠ source := by
      rintro rfl
      simp [hsource] at hq
    rw [Tree.at?_move hne htarget bare free, if_neg hqt, if_neg hqs, hq]
  have hentries : (t.move source target).entries =
      (target, .file bytes stamp) :: ((t.erase source).erase target).entries := by
    rw [Tree.move, hmoved]
    rfl
  have hrest : ∀ e ∈ ((t.erase source).erase target).entries, e ∈ t.entries ∧ ¬ target <+: e.1 := by
    intro e he
    simp only [Tree.erase, List.mem_filter] at he
    exact ⟨he.1.1, by simpa [← List.isPrefixOf_iff_prefix] using he.2⟩
  refine ⟨?_, ?_, ?_⟩
  · rw [hentries, List.map_cons, List.nodup_cons]
    refine ⟨?_, ?_⟩
    · intro hmem
      obtain ⟨e, he, heq⟩ := List.mem_map.1 hmem
      exact (hrest e he).2 (heq ▸ List.prefix_refl _)
    · exact ht.distinct.sublist ((List.filter_sublist.trans List.filter_sublist).map _)
  · intro e he
    rw [hentries] at he
    rcases List.mem_cons.1 he with rfl | he
    · exact hdots
    · exact ht.named e (hrest e he).1
  · intro e he
    rw [hentries] at he
    rcases List.mem_cons.1 he with rfl | he
    · exact ⟨htarget, hdir _ hparent⟩
    · obtain ⟨hnil, hin⟩ := ht.inside e (hrest e he).1
      exact ⟨hnil, hdir _ hin⟩

end

/-! ## The order of the entries -/

/-- The same disk, listed in another order. -/
structure Tree.Relisted (t t' : Tree) : Prop where
  perm : t'.entries.Perm t.entries
  stamp : t'.nextStamp = t.nextStamp

theorem lookup_eq_of_perm {entries entries' : List (List String × Entry)}
    (h : entries'.Perm entries) (hkeys : (entries.map (·.1)).Nodup) (q : List String) :
    entries'.lookup q = entries.lookup q := by
  induction h with
  | nil => rfl
  | cons e _ ih =>
    obtain ⟨key, entry⟩ := e
    simp only [List.map_cons, List.nodup_cons] at hkeys
    simp only [List.lookup_cons, ih hkeys.2]
  | swap e e' rest =>
    obtain ⟨key, entry⟩ := e
    obtain ⟨key', entry'⟩ := e'
    simp only [List.map_cons, List.nodup_cons, List.mem_cons, not_or] at hkeys
    by_cases hkey : q = key
    · have hne : (key == key') = false := by simpa using hkeys.1.1
      simp [List.lookup_cons, hkey, hne]
    · have hne : (q == key) = false := by simpa using hkey
      simp [List.lookup_cons, hne]
  | trans _ hback ihfront ihback =>
    have hmiddle := ((hback.map (·.1)).nodup_iff).2 hkeys
    exact (ihfront hmiddle).trans (ihback hkeys)

section
variable {t t' : Tree}

theorem Tree.Relisted.at?_eq (h : t.Relisted t') (hkeys : (t.entries.map (·.1)).Nodup)
    (q : List String) : t'.at? q = t.at? q := by
  simp only [Tree.at?, lookup_eq_of_perm h.perm hkeys]

theorem Tree.Relisted.put (h : t.Relisted t') (place : List String) (entry : Entry) :
    (t.put place entry).Relisted (t'.put place entry) :=
  ⟨(h.perm.filter _).cons _, h.stamp⟩

theorem Tree.Relisted.stampFile (h : t.Relisted t') (place : List String) (bytes : List UInt8) :
    (t.stampFile place bytes).Relisted (t'.stampFile place bytes) := by
  have hput := h.put place (.file bytes t.nextStamp)
  refine ⟨?_, ?_⟩
  · simpa only [Tree.stampFile, h.stamp] using hput.perm
  · simp only [Tree.stampFile, h.stamp]

theorem Tree.Relisted.erase (h : t.Relisted t') (place : List String) :
    (t.erase place).Relisted (t'.erase place) :=
  ⟨h.perm.filter _, h.stamp⟩

theorem Tree.Relisted.move (h : t.Relisted t') (source target : List String) :
    (t.move source target).Relisted (t'.move source target) := by
  refine ⟨?_, h.stamp⟩
  exact (h.perm.filterMap _).append ((h.erase source).erase target).perm

theorem Tree.Relisted.children (h : t.Relisted t') (place : List String) :
    (t'.children place).Perm (t.children place) :=
  h.perm.filterMap _

/-- Paths lead to the same places in trees with the same entries. -/
theorem Tree.walk_congr (same : ∀ q, t'.at? q = t.at? q) (place ps : List String) :
    t'.walk place ps = t.walk place ps := by
  induction ps generalizing place with
  | nil => rfl
  | cons p ps ih => simp only [Tree.walk, same, ih]

theorem Tree.get_congr (same : ∀ q, t'.at? q = t.at? q) (path : Path) :
    t'.get path = t.get path := by
  simp only [Tree.get, Tree.place, Tree.walk_congr same, same]

end

end ElementBundle.Disk
