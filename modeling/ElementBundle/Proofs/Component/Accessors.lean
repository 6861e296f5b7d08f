import ElementBundle.Component.Generate
import ElementBundle.Proofs.Component.Declared
import Mathlib.Data.List.Nodup

/-! # Names of accessors

Attributes have distinct names, but their accessors are named by identifiers, in
which hyphens have become underscores, and the list of required attributes is one
accessor more. Where two of these names meet, a class has two accessors under one
name, and the last one overrides the others. It is said here exactly when that
happens and which accessor is left.
-/

namespace ElementBundle.Component

open ElementBundle.Text

/-! ## Accessors of a class -/

/-- The two kinds of accessors. -/
inductive Access where
  | getter
  | setter
  deriving DecidableEq, Repr

/-- An accessor: its kind, its name and its only statement. -/
structure Accessor where
  access : Access
  name : List Char
  statement : List Char
  deriving DecidableEq, Repr

/-- Accessors with the same key override each other. -/
def Accessor.key (x : Accessor) : Access × List Char :=
  (x.access, x.name)

def Accessor.text (x : Accessor) : List Char :=
  match x.access with
  | .getter => member ("get ".toList ++ x.name ++ "()".toList) x.statement
  | .setter => member ("set ".toList ++ x.name ++ "(val)".toList) x.statement

/-- The accessor of a key that a class has in the end: the last one that is defined. -/
def lastOf (key : Access × List Char) (xs : List Accessor) : Option Accessor :=
  (xs.filter fun x => x.key = key).getLast?

/-- The name of the list of required attributes. -/
def listName : List Char := "requiredAttributes".toList

def Attribute.accessor (a : Attribute) : Access → Accessor
  | .getter => ⟨.getter, a.identifier, a.getter⟩
  | .setter => ⟨.setter, a.identifier, a.setter⟩

def Descriptor.requiredList (d : Descriptor) : Accessor :=
  ⟨.getter, listName, "return ".toList ++ literalList d.required ++ [';']⟩

def Descriptor.accessors (d : Descriptor) : List Accessor :=
  d.requiredList :: d.attributes.flatMap fun a => [a.accessor .getter, a.accessor .setter]

theorem members_eq_accessors (d : Descriptor) : d.members = d.accessors.map Accessor.text := by
  simp only [Descriptor.members, Descriptor.accessors, List.map_cons, List.map_flatMap]
  rfl

@[simp]
theorem Attribute.key_accessor (a : Attribute) (access : Access) :
    (a.accessor access).key = (access, a.identifier) := by
  cases access <;> rfl

/-! ## Identifiers -/

/-- Two names that differ at most in hyphens against underscores. -/
def SameUpToHyphens (s t : List Char) : Prop :=
  List.Forall₂ (fun c d => c = d ∨ c = '-' ∧ d = '_' ∨ c = '_' ∧ d = '-') s t

theorem identifier_eq_iff {a b : Attribute} :
    a.identifier = b.identifier ↔ SameUpToHyphens a.name b.name := by
  have hchar : ∀ c d : Char, ((if c = '-' then '_' else c) = if d = '-' then '_' else d) ↔
      c = d ∨ c = '-' ∧ d = '_' ∨ c = '_' ∧ d = '-' := by
    intro c d
    by_cases hc : c = '-' <;> by_cases hd : d = '-' <;> simp [hc, hd, eq_comm]
  have hlist : ∀ s t : List Char, (s.map fun c => if c = '-' then '_' else c) =
      (t.map fun c => if c = '-' then '_' else c) ↔ SameUpToHyphens s t := by
    intro s
    induction s with
    | nil => intro t; cases t <;> simp [SameUpToHyphens]
    | cons c s ih =>
        intro t
        cases t with
        | nil => simp [SameUpToHyphens]
        | cons d t =>
            have htail := ih t
            unfold SameUpToHyphens at htail ⊢
            rw [List.map_cons, List.map_cons, List.cons.injEq, hchar, htail, List.forall₂_cons]
  exact hlist a.name b.name

theorem identifier_eq_listName_iff {a : Attribute} :
    a.identifier = listName ↔ a.name = listName := by
  have hsame : ∀ s, (s.map fun c => if c = '-' then '_' else c) = listName → s = listName := by
    intro s h
    have hyphen : '-' ∉ s := by
      intro hmem
      have hunder : '_' ∈ listName := by
        rw [← h]
        exact List.mem_map.2 ⟨'-', hmem, rfl⟩
      exact absurd hunder (by decide)
    have hmap : s.map (fun c => if c = '-' then '_' else c) = s.map id :=
      List.map_congr_left fun c hc => if_neg fun (he : c = '-') => hyphen (he ▸ hc)
    rw [← h, hmap, List.map_id]
  constructor
  · exact hsame a.name
  · intro h
    rw [Attribute.identifier, h]
    decide

/-! ## Keys -/

theorem mem_flatMap_keys {ids : List (List Char)} {access : Access} {name : List Char} :
    (access, name) ∈ ids.flatMap (fun n => [(Access.getter, n), (Access.setter, n)]) ↔
      name ∈ ids := by
  cases access <;> simp

theorem nodup_flatMap_keys {ids : List (List Char)} :
    (ids.flatMap fun n => [(Access.getter, n), (Access.setter, n)]).Nodup ↔ ids.Nodup := by
  induction ids with
  | nil => simp
  | cons n ids ih =>
      rw [List.flatMap_cons, List.nodup_cons, ← ih]
      simp only [List.cons_append, List.nil_append, List.nodup_cons, List.mem_cons,
        mem_flatMap_keys]
      simp

theorem keys_accessors (d : Descriptor) :
    d.accessors.map Accessor.key = (.getter, listName) ::
      (d.attributes.map Attribute.identifier).flatMap
        fun n => [(Access.getter, n), (Access.setter, n)] := by
  simp only [Descriptor.accessors, List.map_cons, List.map_flatMap, List.flatMap_map,
    Attribute.key_accessor]
  rfl

theorem nodup_keys_iff (d : Descriptor) :
    (d.accessors.map Accessor.key).Nodup ↔
      (d.attributes.map Attribute.identifier).Nodup ∧
        listName ∉ d.attributes.map Attribute.identifier := by
  rw [keys_accessors, List.nodup_cons, mem_flatMap_keys, nodup_flatMap_keys, and_comm]

/-! ## The accessors that are left -/

theorem filter_accessors (as : List Attribute) (access : Access) (name : List Char) :
    (as.flatMap fun a => [a.accessor .getter, a.accessor .setter]).filter
        (fun x => x.key = (access, name)) =
      (as.filter fun a => a.identifier = name).map (·.accessor access) := by
  induction as with
  | nil => rfl
  | cons a as ih =>
      rw [List.flatMap_cons, List.filter_append, ih]
      by_cases hname : a.identifier = name
      · cases access <;> simp [hname]
      · cases access <;> simp [hname]

/-- The last attribute with an identifier has the accessors of that name; only if there is none, the
list of required attributes keeps its own. -/
theorem lastOf_accessors (d : Descriptor) (access : Access) (name : List Char) :
    lastOf (access, name) d.accessors =
      (((d.attributes.filter fun a => a.identifier = name).getLast?.map (·.accessor access)).or
        (if (Access.getter, listName) = (access, name) then some d.requiredList else none)) := by
  have hlist : d.requiredList.key = (Access.getter, listName) := rfl
  rw [lastOf, Descriptor.accessors, List.filter_cons, filter_accessors, hlist, ← List.getLast?_map]
  generalize (d.attributes.filter fun a => a.identifier = name).map (·.accessor access) = xs
  by_cases hkey : (Access.getter, listName) = (access, name)
  · simp only [hkey, decide_true, if_true]
    cases xs with
    | nil => rfl
    | cons x xs => rw [List.getLast?_cons_cons, List.getLast?_cons, Option.some_or]
  · simp only [hkey, decide_false, if_false, Option.or_none, Bool.false_eq_true]

/-- The statement of an accessor tells the name of its attribute. -/
theorem accessor_injective {a b : Attribute} {access : Access}
    (h : a.accessor access = b.accessor access) : a.name = b.name := by
  have hstatement := congrArg Accessor.statement h
  cases access with
  | getter =>
      simp only [Attribute.accessor, Attribute.getter] at hstatement
      split at hstatement <;> split at hstatement <;>
        simp at hstatement <;> exact hstatement
  | setter =>
      simp only [Attribute.accessor, Attribute.setter] at hstatement
      split at hstatement <;> split at hstatement <;>
        simp at hstatement <;> exact hstatement

theorem getter_ne_requiredList (a : Attribute) (d : Descriptor) :
    a.accessor .getter ≠ d.requiredList := by
  intro h
  have hstatement := congrArg Accessor.statement h
  have hbracket : ∃ tail, literalList d.required = '[' :: tail := by
    unfold literalList
    exact ⟨_, rfl⟩
  obtain ⟨tail, htail⟩ := hbracket
  simp only [Attribute.accessor, Attribute.getter, Descriptor.requiredList, htail] at hstatement
  split at hstatement <;> simp at hstatement

theorem lastOf_list_iff (d : Descriptor) :
    lastOf (.getter, listName) d.accessors = some d.requiredList ↔
      listName ∉ d.attributes.map Attribute.identifier := by
  rw [lastOf_accessors]
  constructor
  · intro h hmem
    obtain ⟨a, ha, hname⟩ := List.mem_map.1 hmem
    have hne : (d.attributes.filter fun a => a.identifier = listName) ≠ [] :=
      List.ne_nil_of_mem (List.mem_filter.2 ⟨ha, by simpa using hname⟩)
    rw [List.getLast?_eq_some_getLast hne] at h
    exact getter_ne_requiredList _ d (Option.some.inj h)
  · intro hmem
    have hnone : (d.attributes.filter fun a => a.identifier = listName) = [] := by
      rw [List.filter_eq_nil_iff]
      intro a ha hname
      exact hmem (List.mem_map.2 ⟨a, ha, by simpa using hname⟩)
    rw [hnone]
    rfl

/-- An attribute keeps its accessors exactly if none behind it has the same identifier. -/
theorem lastOf_accessor_iff {d : Descriptor} (hdistinct : (d.attributes.map Attribute.name).Nodup)
    {before after : List Attribute} {a : Attribute} (hsplit : d.attributes = before ++ a :: after)
    (access : Access) :
    lastOf (access, a.identifier) d.accessors = some (a.accessor access) ↔
      ∀ b ∈ after, b.identifier ≠ a.identifier := by
  rw [hsplit, List.map_append, List.map_cons] at hdistinct
  have hother : ∀ b ∈ after, b.name ≠ a.name := by
    intro b hb hname
    have hnot := (List.nodup_cons.1 (List.nodup_append.1 hdistinct).2.1).1
    exact hnot (hname ▸ List.mem_map_of_mem hb)
  have hfilter : (d.attributes.filter fun b => b.identifier = a.identifier).getLast? =
      some ((after.filter fun b => b.identifier = a.identifier).getLast?.getD a) := by
    rw [hsplit, List.filter_append, List.filter_cons_of_pos (by simp), List.getLast?_append,
      List.getLast?_cons, Option.some_or]
  rw [lastOf_accessors, hfilter, Option.map_some, Option.some_or, Option.some.injEq]
  constructor
  · intro h b hb hsame
    have hne : (after.filter fun b => b.identifier = a.identifier) ≠ [] :=
      List.ne_nil_of_mem (List.mem_filter.2 ⟨hb, by simpa using hsame⟩)
    rw [List.getLast?_eq_some_getLast hne, Option.getD_some] at h
    have hlast := List.getLast_mem hne
    exact hother _ (List.mem_filter.1 hlast).1 (accessor_injective h)
  · intro hnone
    have hnil : (after.filter fun b => b.identifier = a.identifier) = [] := by
      rw [List.filter_eq_nil_iff]
      intro b hb hsame
      exact hnone b hb (by simpa using hsame)
    rw [hnil]
    rfl

/-! ## Collisions -/

section Declared

variable {specs : List Char} {as : List Attribute} (h : Declared [] (words specs) as)

include h

/-- Identifiers meet exactly if the text declares two names that differ only in hyphens. -/
theorem Declared.nodup_identifiers_iff :
    (as.map Attribute.identifier).Nodup ↔
      ∀ a ∈ spelledBy (words specs), ∀ b ∈ spelledBy (words specs),
        SameUpToHyphens a.name b.name → a.name = b.name := by
  constructor
  · intro hnodup a ha b hb hsame
    obtain ⟨a', ha', hname⟩ := h.present a ha List.not_mem_nil
    obtain ⟨b', hb', hname'⟩ := h.present b hb List.not_mem_nil
    rw [← hname, ← hname'] at hsame ⊢
    exact congrArg _ (List.inj_on_of_nodup_map hnodup ha' hb' (identifier_eq_iff.2 hsame))
  · intro hwords
    have hpairwise := List.pairwise_map.1 h.distinct
    refine List.pairwise_map.2 (hpairwise.imp_of_mem fun {a b} ha hb hne hsame => hne ?_)
    exact hwords a (h.ordered.subset ha) b (h.ordered.subset hb) (identifier_eq_iff.1 hsame)

theorem Declared.listName_iff :
    listName ∉ as.map Attribute.identifier ↔
      ∀ b ∈ spelledBy (words specs), b.name ≠ listName := by
  constructor
  · intro hnot b hb hname
    obtain ⟨a, ha, hsame⟩ := h.present b hb List.not_mem_nil
    exact hnot (List.mem_map.2 ⟨a, ha, identifier_eq_listName_iff.2 (hsame.trans hname)⟩)
  · intro hwords hmem
    obtain ⟨a, ha, hname⟩ := List.mem_map.1 hmem
    exact hwords a (h.ordered.subset ha) (identifier_eq_listName_iff.1 hname)

end Declared

/-- The members of a component whose attributes a text declares. Their keys are distinct exactly if
all identifiers are and none of them is the name of the list of required attributes. The former holds
exactly if the text does not declare two names that differ only in hyphens against underscores, and
the latter exactly if it does not declare the name of the list. Otherwise accessors are overridden:
an attribute keeps its own exactly if none behind it has the same identifier, and the list is kept
exactly if no attribute has its name. -/
theorem accessors_collide_iff (specs : List Char) (d : Descriptor)
    (hd : d.attributes = (declare specs).1) :
    let ids := d.attributes.map Attribute.identifier
    let ws := words specs
    d.members = d.accessors.map Accessor.text ∧
    ((d.accessors.map Accessor.key).Nodup ↔ ids.Nodup ∧ listName ∉ ids) ∧
    (ids.Nodup ↔ ∀ a ∈ spelledBy ws, ∀ b ∈ spelledBy ws,
      SameUpToHyphens a.name b.name → a.name = b.name) ∧
    (listName ∉ ids ↔ ∀ b ∈ spelledBy ws, b.name ≠ listName) ∧
    (∀ before a after, d.attributes = before ++ a :: after → ∀ access,
      (lastOf (access, a.identifier) d.accessors = some (a.accessor access) ↔
        ∀ b ∈ after, b.identifier ≠ a.identifier)) ∧
    (lastOf (.getter, listName) d.accessors = some d.requiredList ↔ listName ∉ ids) := by
  intro ids ws
  have hdeclared : Declared [] ws d.attributes := hd ▸ declared_declare specs
  refine ⟨members_eq_accessors d, nodup_keys_iff d, hdeclared.nodup_identifiers_iff,
    hdeclared.listName_iff, fun before a after hsplit access => ?_, lastOf_list_iff d⟩
  exact lastOf_accessor_iff hdeclared.distinct hsplit access

/-- The first of three attributes loses its accessors to the third one; the second one and the list
of required attributes keep theirs. -/
theorem accessors_collide_iff_hyphen :
    let as := (declare "a-b! c .a_b".toList).1
    let d : Descriptor := { tag := "x-y".toList, className := ['X'], attributes := as }
    let hyphen : Attribute := ⟨"a-b".toList, .plain true⟩
    let middle : Attribute := ⟨['c'], .plain false⟩
    let underscore : Attribute := ⟨"a_b".toList, .classToggle⟩
    d.attributes = [hyphen, middle, underscore] ∧ ¬ (d.accessors.map Accessor.key).Nodup ∧
      lastOf (.getter, "a_b".toList) d.accessors ≠ some (hyphen.accessor .getter) ∧
      lastOf (.getter, ['c']) d.accessors = some (middle.accessor .getter) ∧
      lastOf (.setter, "a_b".toList) d.accessors = some (underscore.accessor .setter) ∧
      lastOf (.getter, listName) d.accessors = some d.requiredList := by
  intro as d hyphen middle underscore
  have hattributes : d.attributes = [hyphen, middle, underscore] := by decide +kernel
  obtain ⟨-, hkeys, -, -, hlast, hlist⟩ := accessors_collide_iff "a-b! c .a_b".toList d rfl
  have hids : d.attributes.map Attribute.identifier =
      ["a_b".toList, ['c'], "a_b".toList] := by
    rw [hattributes]
    decide
  rw [hids] at hkeys hlist
  have hfirst := hlast [] hyphen [middle, underscore] hattributes .getter
  have hsecond := hlast [hyphen] middle [underscore] hattributes .getter
  have hthird := hlast [hyphen, middle] underscore [] hattributes .setter
  refine ⟨hattributes, fun h => absurd (hkeys.1 h).1 (by decide), fun h => ?_, hsecond.2 (by decide),
    hthird.2 (by decide), hlist.2 (by decide)⟩
  exact hfirst.1 h underscore (by simp) (by decide)

/-- Two names that are told apart have one identifier, so that the accessors under it reach only the
second attribute; and an attribute takes the place of the list of required attributes. -/
theorem accessors_override :
    let pair := (declare "a-b a_b".toList).1
    let sole := (declare "requiredAttributes!".toList).1
    let d (as : List Attribute) : Descriptor :=
      { tag := "x-y".toList, className := ['X'], attributes := as }
    (¬ ∀ specs, ((declare specs).1.map Attribute.identifier).Nodup) ∧
      (¬ ∀ specs, listName ∉ (declare specs).1.map Attribute.identifier) ∧
      pair.map Attribute.name = ["a-b".toList, "a_b".toList] ∧
      lastOf (.getter, "a_b".toList) (d pair).accessors =
        some ⟨.getter, "a_b".toList, "return this.getAttribute('a_b');".toList⟩ ∧
      lastOf (.getter, listName) (d sole).accessors =
        some ⟨.getter, listName, "return this.getAttribute('requiredAttributes');".toList⟩ := by
  intro pair sole d
  refine ⟨fun h => ?_, fun h => ?_, by decide +kernel, by decide +kernel, by decide +kernel⟩
  · exact absurd (h "a-b a_b".toList) (by decide +kernel)
  · exact absurd (h "requiredAttributes!".toList) (by decide +kernel)

end ElementBundle.Component
