import ElementBundle.Component.Generate
import ElementBundle.Proofs.Component.Count
import ElementBundle.Proofs.Source.Resume

/-! # Generated members

As long as the accessors of a component are named by identifiers, its members
are plain code and names between quotes. Each member opens a brace and closes
it, so behind them as many braces are open as in front: `exists_spells_members`.
-/

namespace ElementBundle.Component

open ElementBundle.Text ElementBundle.Source ElementBundle.Markup

/-! ## Spelling by quiet tokens -/

/-- Quiet tokens spell a text, and change the number of open braces as `effect` says. -/
def Spells (s : List Char) (effect : Int → Option Int) : Prop :=
  ∃ ms, (∀ t ∈ ms, Quiet t) ∧ ms.flatMap Token.text = s ∧
    ∀ depth, depthAfter? depth (codeText ms) = effect depth

theorem Spells.append {s t : List Char} {f g : Int → Option Int} (hs : Spells s f)
    (ht : Spells t g) : Spells (s ++ t) fun depth => (f depth).bind g := by
  obtain ⟨xs, hxs, rfl, hf⟩ := hs
  obtain ⟨ys, hys, rfl, hg⟩ := ht
  refine ⟨xs ++ ys, fun t ht => ?_, List.flatMap_append, fun depth => ?_⟩
  · exact (List.mem_append.1 ht).elim (hxs t) (hys t)
  · have hcode : codeText (xs ++ ys) = codeText xs ++ codeText ys := List.flatMap_append
    rw [hcode, depthAfter?_append, hf]
    exact congrArg _ (funext hg)

theorem Spells.congr {s : List Char} {f g : Int → Option Int} (hs : Spells s f)
    (h : ∀ depth, f depth = g depth) : Spells s g :=
  funext h ▸ hs

theorem spells_code {s : List Char} (h : s.all isMuted = true) : Spells s (depthAfter? · s) := by
  by_cases hs : s = []
  · subst hs
    exact ⟨[], by simp, rfl, fun _ => rfl⟩
  · refine ⟨[.code s], ?_, by simp [Token.text], fun depth => by simp [codeText]⟩
    intro t ht
    obtain rfl := List.mem_singleton.1 ht
    exact .code hs (muted_of_all h)

theorem spells_string {q : Char} {s : List Char} (hq : isQuote q = true) (h : Muted s) :
    Spells (q :: (s ++ [q])) some := by
  refine ⟨[.string (q :: (s ++ [q]))], ?_, by simp [Token.text], fun _ => rfl⟩
  intro t ht
  obtain rfl := List.mem_singleton.1 ht
  exact .string hq h

/-- Characters that are muted, and neither colons nor braces. -/
def isTame (c : Char) : Bool :=
  isMuted c && !(c == ':' || c == '{' || c == '}')

theorem isMuted_of_isTame {s : List Char} (h : s.all isTame = true) : s.all isMuted = true := by
  rw [List.all_eq_true] at h ⊢
  exact fun c hc => (Bool.and_eq_true_iff.1 (h c hc)).1

theorem depthAfter?_of_isTame {s : List Char} (h : s.all isTame = true) (depth : Int) :
    depthAfter? depth s = some depth := by
  induction s with
  | nil => rfl
  | cons c s ih =>
      rw [List.all_cons, Bool.and_eq_true_iff] at h
      have hc : (¬ c = ':' ∧ ¬ c = '{') ∧ ¬ c = '}' := by
        simpa using (Bool.and_eq_true_iff.1 h.1).2
      rw [depthAfter?, if_neg hc.1.2, if_neg hc.2]
      exact ih h.2

theorem colonAfter_of_isTame {s : List Char} (h : s.all isTame = true) :
    colonAfter false s = false := by
  induction s with
  | nil => rfl
  | cons c s ih =>
      rw [List.all_cons, Bool.and_eq_true_iff] at h
      have hc : (¬ c = ':' ∧ ¬ c = '{') ∧ ¬ c = '}' := by
        simpa using (Bool.and_eq_true_iff.1 h.1).2
      rw [colonAfter, beq_false_of_ne hc.1.1]
      exact ih h.2

theorem spells_tame {s : List Char} (h : s.all isTame = true) : Spells s some :=
  (spells_code (isMuted_of_isTame h)).congr (depthAfter?_of_isTame h)

/-! ## Names -/

/-- A class of characters without slashes, quotes, colons and braces. -/
theorem isTame_of_class {p : Char → Bool} {c : Char} (hc : p c = true)
    (hp : ['/', '\\', '\'', '"', '`', ':', '{', '}'].all (fun c => !p c) = true) : isTame c = true := by
  have hne : ∀ d ∈ ['/', '\\', '\'', '"', '`', ':', '{', '}'], c ≠ d := by
    rintro d hd rfl
    have hnot := List.all_eq_true.1 hp c hd
    rw [hc] at hnot
    cases hnot
  simp only [List.forall_mem_cons] at hne
  simp [isTame, isMuted, isQuote, hne]

theorem isTame_of_isIdentifier {s : List Char} (h : isIdentifier s = true) :
    s.all isTame = true := by
  have hrest : ∀ c, isIdentRest c = true → isTame c = true :=
    fun c hc => isTame_of_class hc (by decide)
  cases s with
  | nil => rfl
  | cons c s =>
      rw [isIdentifier, Bool.and_eq_true_iff, Bool.or_eq_true_iff, Bool.and_eq_true_iff] at h
      rw [List.all_cons, isTame_of_class h.1 (by decide), Bool.true_and, List.all_eq_true]
      intro d hd
      rcases h.2 with hall | ⟨hlast, hall⟩
      · exact hrest d (List.all_eq_true.1 hall d hd)
      · obtain ⟨init, rfl⟩ := List.getLast?_eq_some_iff.1 (eq_of_beq hlast)
        rw [List.dropLast_concat] at hall
        rcases List.mem_append.1 hd with hd | hd
        · exact hrest d (List.all_eq_true.1 hall d hd)
        · obtain rfl := List.mem_singleton.1 hd
          decide

theorem isTame_name {a : Attribute} (h : isIdentifier a.identifier = true) :
    a.name.all isTame = true := by
  have hall := List.all_eq_true.1 (isTame_of_isIdentifier h)
  rw [List.all_eq_true]
  intro c hc
  have hmem := hall _ (List.mem_map_of_mem hc)
  split at hmem
  · rename_i hhyphen
    rw [hhyphen]
    decide
  · exact hmem

/-! ## Literals -/

theorem isMuted_hexDigit (n : Nat) : isMuted (hexDigit n) = true := by
  have hall : ∀ k : Fin 16, isMuted (Nat.digitChar k) = true := by decide
  exact hall ⟨n % 16, Nat.mod_lt n (by decide)⟩

theorem isMuted_hex (width n : Nat) : (hex width n).all isMuted = true := by
  induction width generalizing n with
  | zero => rfl
  | succ width ih => rw [hex, List.all_append, ih]; simp [isMuted_hexDigit]

theorem muted_unitEscape (n : Nat) : Muted (unitEscape n) :=
  (muted_escape (c := 'u') (by decide)).append (muted_of_all (isMuted_hex 4 n))

theorem muted_literalChar {c : Char} (h : isMuted c = true) : Muted (literalChar c) := by
  unfold literalChar
  split
  · rename_i hc
    rw [hc] at h
    cases h
  split
  · rename_i hc
    rw [hc] at h
    cases h
  iterate 5
    split
    · exact muted_escape (by decide)
  split
  · exact muted_singleton h
  split
  · exact muted_unitEscape _
  · exact (muted_unitEscape _).append (muted_unitEscape _)

theorem spells_literal {s : List Char} (h : s.all isTame = true) : Spells (literal s) some := by
  refine spells_string (by decide) (muted_flatMap fun c hc => muted_literalChar ?_)
  exact List.all_eq_true.1 (isMuted_of_isTame h) c hc

theorem spells_intercalate {effect : Int → Option Int} {sep : List Char} {items : List (List Char)}
    (hne : items ≠ []) (hsep : sep.all isTame = true) (hitems : ∀ s ∈ items, Spells s effect)
    (hstable : ∀ depth, (effect depth).bind effect = effect depth) :
    Spells (sep.intercalate items) effect := by
  induction items with
  | nil => exact absurd rfl hne
  | cons s items ih =>
      have hs := hitems s List.mem_cons_self
      cases items with
      | nil => simpa [List.intercalate] using hs
      | cons s' items =>
          have htail := ih (List.cons_ne_nil _ _) fun u hu => hitems u (List.mem_cons_of_mem s hu)
          have hall := hs.append ((spells_tame hsep).append htail)
          have htext : sep.intercalate (s :: s' :: items) =
              s ++ (sep ++ sep.intercalate (s' :: items)) := by
            simp [List.intercalate]
          rw [htext]
          exact hall.congr hstable

theorem spells_literalList {items : List (List Char)} (h : ∀ s ∈ items, s.all isTame = true) :
    Spells (literalList items) some := by
  have hopen : Spells ['['] some := spells_tame (by decide)
  have hclose : Spells [']'] some := spells_tame (by decide)
  cases items with
  | nil => exact hopen.append hclose
  | cons s items =>
      have hitems : Spells ([',', ' '].intercalate ((s :: items).map literal)) some := by
        refine spells_intercalate (by simp) (by decide) ?_ fun _ => rfl
        intro u hu
        obtain ⟨v, hv, rfl⟩ := List.mem_map.1 hu
        exact spells_literal (h v hv)
      exact (hopen.append hitems).append hclose

/-! ## Members -/

/-- A member closes the brace that it opens. That brace closes the body if none was open. -/
def braced (depth : Int) : Option Int :=
  if depth = 0 then none else some depth

theorem spells_member {signature statement : List Char} (hsignature : Spells signature some)
    (hstatement : Spells statement some) : Spells (member signature statement) braced := by
  have htab : Spells ['\t'] some := spells_tame (by decide)
  have hopen : Spells " \x7b\n\t\t".toList (depthAfter? · " \x7b\n\t\t".toList) :=
    spells_code (by decide)
  have hclose : Spells "\n\t\x7d".toList (depthAfter? · "\n\t\x7d".toList) :=
    spells_code (by decide)
  have hall := (((htab.append hsignature).append hopen).append hstatement).append hclose
  refine hall.congr fun depth => ?_
  show (if depth + 1 = 1 then none else some (depth + 1 - 1)) = braced depth
  unfold braced
  by_cases hdepth : depth = 0
  · rw [if_pos hdepth, if_pos (by omega)]
  · rw [if_neg hdepth, if_neg (by omega), Int.add_sub_cancel]

theorem spells_quoted {before name after : List Char} (hbefore : before.getLast? = some '\'')
    (hafter : after.head? = some '\'') (hfront : before.dropLast.all isTame = true)
    (hname : name.all isTame = true) (hback : after.tail.all isTame = true) :
    Spells (before ++ name ++ after) some := by
  obtain ⟨front, rfl⟩ := List.getLast?_eq_some_iff.1 hbefore
  obtain ⟨back, rfl⟩ := List.head?_eq_some_iff.1 hafter
  rw [List.dropLast_concat] at hfront
  have hquoted : Spells ('\'' :: (name ++ ['\''])) some :=
    spells_string (by decide) (muted_of_all (isMuted_of_isTame hname))
  have hall := (spells_tame hfront).append (hquoted.append (spells_tame hback))
  simpa using hall

theorem spells_getter {a : Attribute} (h : a.name.all isTame = true) : Spells a.getter some := by
  unfold Attribute.getter
  split <;> exact spells_quoted (by decide) (by decide) (by decide) h (by decide)

theorem spells_setter {a : Attribute} (h : a.name.all isTame = true) : Spells a.setter some := by
  unfold Attribute.setter
  split <;> exact spells_quoted (by decide) (by decide) (by decide) h (by decide)

theorem spells_accessors {a : Attribute} (h : isIdentifier a.identifier = true) :
    ∀ m ∈ a.accessors, Spells m braced := by
  have hname := isTame_name h
  have hident := spells_tame (isTame_of_isIdentifier h)
  have hsignature : ∀ before after : List Char, before.all isTame = true → after.all isTame = true →
      Spells (before ++ a.identifier ++ after) some := fun _ _ hbefore hafter =>
    ((spells_tame hbefore).append hident).append (spells_tame hafter)
  intro m hm
  simp only [Attribute.accessors, List.mem_cons, List.not_mem_nil, or_false] at hm
  rcases hm with rfl | rfl
  · exact spells_member (hsignature _ _ (by decide) (by decide)) (spells_getter hname)
  · exact spells_member (hsignature _ _ (by decide) (by decide)) (spells_setter hname)

theorem exists_spells_members {d : Descriptor}
    (h : ∀ a ∈ d.attributes, isIdentifier a.identifier = true) :
    ∃ m, d.membersText = '\n' :: m ∧ Spells m braced := by
  have hrequired : ∀ name ∈ d.required, name.all isTame = true := by
    intro name hname
    obtain ⟨a, ha, rfl⟩ := List.mem_map.1 hname
    exact isTame_name (h a (List.mem_filter.1 ha).1)
  have hlist : Spells ("return ".toList ++ literalList d.required ++ [';']) some :=
    ((spells_tame (by decide)).append (spells_literalList hrequired)).append
      (spells_tame (by decide))
  have hmembers : ∀ m ∈ d.members, Spells m braced := by
    intro m hm
    rcases List.mem_cons.1 hm with rfl | hm
    · exact spells_member (spells_tame (by decide)) hlist
    · obtain ⟨a, ha, hm⟩ := List.mem_flatMap.1 hm
      exact spells_accessors (h a ha) m hm
  have hstable : ∀ depth, (braced depth).bind braced = braced depth := by
    intro depth
    unfold braced
    split
    · rfl
    · rename_i hdepth
      exact if_neg hdepth
  have hjoined : Spells (['\n', '\n'].intercalate d.members) braced :=
    spells_intercalate (List.cons_ne_nil _ _) (by decide) hmembers hstable
  have hfeed : Spells ['\n'] some := spells_tame (by decide)
  refine ⟨_, rfl, (hjoined.append hfeed).congr fun depth => ?_⟩
  exact Option.bind_fun_some (braced depth)

end ElementBundle.Component
