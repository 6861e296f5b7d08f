import ElementBundle.Markup.Block

/-! # Balanced blocks

A block is read item by item (`Itemized`), and its tags are the items that
count: `Tag.weight` says by how much. Every front part of the tags leaves an
element open, and all of them together leave none, so a block ends at the first
tag after which nothing is open.
-/

namespace ElementBundle.Markup

open ElementBundle.Text

/-! ## Weights of tags -/

/-- How a tag changes the number of open elements. -/
def Tag.weight (t : Tag) : Int :=
  if t.closing then -1 else if t.selfClosing then 0 else 1

/-- The number of elements that tags leave open. -/
def weightOf : List Tag → Int
  | [] => 0
  | t :: tags => t.weight + weightOf tags

/-- Every proper front part of the tags leaves an element open, and all of them leave none. -/
structure Balanced (tags : List Tag) : Prop where
  proper : ∀ front back, tags = front ++ back → front ≠ [] → back ≠ [] → 1 ≤ weightOf front
  total : weightOf tags = 0

/-- Where an element is open, the number of open elements changes by the weight of a tag. -/
theorem Tag.nesting_eq_add_weight (t : Tag) {depth : Nat} (h : t.closing = true → 0 < depth) :
    (t.nesting depth : Int) = depth + t.weight := by
  unfold Tag.nesting Tag.weight
  by_cases hc : t.closing = true
  · have hd := h hc
    rw [if_pos hc, if_pos hc]
    omega
  · rw [if_neg hc, if_neg hc]
    split <;> omega

/-! ## Items of a block -/

def Item.tag? : Item → Option Tag
  | .tag t => some t
  | _ => none

/-- A text is read item by item, up to a rest. -/
inductive Itemized : Bool → List Char → List Item → List Char → Prop
  | nil {afterColon : Bool} {rest : List Char} : Itemized afterColon rest [] rest
  | cons {afterColon : Bool} {c : Char} {s rest : List Char} {r : ItemRead} {items : List Item}
      (head : readItem afterColon c s = .ok r)
      (tail : Itemized r.item.endsWithColon r.rest items rest) :
      Itemized afterColon (c :: s) (r.item :: items) rest

/-- Items that go on from `depth` open elements end at the first tag that leaves none open. -/
structure Settles (depth : Int) (items : List Item) : Prop where
  last : ∃ front t, items = front ++ [.tag t]
  proper : ∀ front back, items.filterMap Item.tag? = front ++ back → back ≠ [] →
    1 ≤ depth + weightOf front
  total : depth + weightOf (items.filterMap Item.tag?) = 0

theorem Settles.cons_of_not_tag {depth : Int} {item : Item} {items : List Item}
    (h : Settles depth items) (hitem : item.tag? = none) : Settles depth (item :: items) := by
  obtain ⟨front, t, rfl⟩ := h.last
  have htags : (item :: (front ++ [Item.tag t])).filterMap Item.tag? =
      (front ++ [Item.tag t]).filterMap Item.tag? := List.filterMap_cons_none hitem
  refine ⟨⟨item :: front, t, rfl⟩, ?_, ?_⟩
  · rw [htags]
    exact h.proper
  · rw [htags]
    exact h.total

theorem Settles.cons_tag {depth : Int} {t : Tag} {items : List Item}
    (h : Settles (depth + t.weight) items) (hdepth : 1 ≤ depth) :
    Settles depth (.tag t :: items) := by
  have htags : (Item.tag t :: items).filterMap Item.tag? = t :: items.filterMap Item.tag? := rfl
  refine ⟨?_, ?_, ?_⟩
  · obtain ⟨front, u, rfl⟩ := h.last
    exact ⟨.tag t :: front, u, rfl⟩
  · intro front back hsplit hback
    rw [htags] at hsplit
    cases front with
    | nil =>
        show 1 ≤ depth + 0
        omega
    | cons u front =>
        obtain ⟨rfl, htail⟩ := List.cons.inj hsplit
        have hproper := h.proper front back htail hback
        show 1 ≤ depth + (t.weight + weightOf front)
        omega
  · have htotal := h.total
    rw [htags]
    show depth + (t.weight + weightOf (items.filterMap Item.tag?)) = 0
    omega

theorem Settles.single {depth : Int} {t : Tag} (hdepth : 1 ≤ depth)
    (hzero : depth + t.weight = 0) : Settles depth [.tag t] := by
  refine ⟨⟨[], t, rfl⟩, ?_, ?_⟩
  · intro front back hsplit hback
    have hfront : front = [] := by
      have hlength := congrArg List.length hsplit
      have hpos := List.length_pos_iff.2 hback
      simp only [List.filterMap_cons, Item.tag?, List.filterMap_nil, List.length_singleton,
        List.length_append] at hlength
      exact List.length_eq_zero_iff.1 (by omega)
    rw [hfront]
    show 1 ≤ depth + 0
    omega
  · show depth + (t.weight + 0) = 0
    omega

theorem exists_items_cons {depth : Nat} {afterColon : Bool} {c : Char} {s : List Char}
    {i : ItemRead} {parts : List Part} {x : Except BlockFault Remainder} {r : Remainder}
    (hi : readItem afterColon c s = .ok i) (hitem : i.item.tag? = none)
    (h : x.map (Remainder.push i.item parts) = .ok r)
    (htail : ∀ {r}, x = .ok r → ∃ items, Itemized i.item.endsWithColon i.rest items r.rest ∧
      r.source = items.flatMap Item.source ∧ Settles depth items) :
    ∃ items, Itemized afterColon (c :: s) items r.rest ∧ r.source = items.flatMap Item.source ∧
      Settles depth items := by
  obtain ⟨r', hr, rfl⟩ := map_eq_ok h
  obtain ⟨items, hitems, hsource, hsettles⟩ := htail hr
  refine ⟨i.item :: items, .cons hi hitems, ?_, hsettles.cons_of_not_tag hitem⟩
  simp [Remainder.push, hsource]

/-- The content of a block is read item by item, and its items end at the first tag that leaves no
element open. -/
theorem exists_items_of_readContent {depth : Nat} {afterColon : Bool} {mode : Mode}
    {s : List Char} {r : Remainder} (hdepth : 0 < depth)
    (h : readContent depth afterColon mode s = .ok r) :
    ∃ items, Itemized afterColon s items r.rest ∧ r.source = items.flatMap Item.source ∧
      Settles depth items := by
  fun_induction readContent depth afterColon mode s generalizing r with
  | case1 => cases h
  | case2 => cases h
  | case3 depth afterColon mode c s i hi t ht ih =>
      exact exists_items_cons hi (by rw [ht]; rfl) h (ih hdepth)
  | case4 depth afterColon mode c s i hi t ht ih =>
      have hcolon : i.item.endsWithColon = false := by rw [ht]; rfl
      refine exists_items_cons hi (by rw [ht]; rfl) h ?_
      rw [hcolon]
      exact ih hdepth
  | case5 depth afterColon mode c s i hi t ht ih =>
      have hcolon : i.item.endsWithColon = false := by rw [ht]; rfl
      refine exists_items_cons hi (by rw [ht]; rfl) h ?_
      rw [hcolon]
      exact ih hdepth
  | case6 => cases h
  | case7 depth afterColon mode c s i hi t ht parts hp hz =>
      cases h
      have hweight : (t.nesting depth : Int) = depth + t.weight :=
        t.nesting_eq_add_weight fun _ => hdepth
      refine ⟨[i.item], .cons hi .nil, by simp [ht, Item.source], ?_⟩
      rw [ht]
      exact .single (by omega) (by omega)
  | case8 depth afterColon mode c s i hi t ht parts hp hz ih =>
      obtain ⟨r', hr, rfl⟩ := map_eq_ok h
      obtain ⟨items, hitems, hsource, hsettles⟩ := ih (by omega) hr
      have hcolon : i.item.endsWithColon = false := by rw [ht]; rfl
      refine ⟨i.item :: items, .cons hi (hcolon ▸ hitems), ?_, ?_⟩
      · simp [Remainder.push, hsource]
      · rw [t.nesting_eq_add_weight fun _ => hdepth] at hsettles
        rw [ht]
        exact hsettles.cons_tag (by omega)

/-! ## Blocks -/

theorem dropLeading?_comment_of_tag {s rest : List Char} {t : Tag}
    (h : Tag.read? ('<' :: s) = some (t, rest)) : dropLeading? ['!', '-', '-'] s = none := by
  cases s with
  | nil => rfl
  | cons c s =>
      have hc : '!' ≠ c := by
        rintro rfl
        simp [Tag.read?, readSlash] at h
      simp [dropLeading?, hc]

theorem readItem_tag {s rest : List Char} {t : Tag} (afterColon : Bool)
    (h : Tag.read? ('<' :: s) = some (t, rest)) :
    readItem afterColon '<' s = .ok { item := .tag t, rest } := by
  simp [readItem, dropLeading?_comment_of_tag h, h]

/-- A block is read item by item, its tags are balanced and the last item is one of them. -/
theorem exists_items_of_readBlock {t : Tag} {content : List Char} {r : BlockRead}
    (hopen : t.closing = false) (hfront : Tag.read? (t.text ++ content) = some (t, content))
    (h : readBlock t content = .ok r) :
    ∃ items, Itemized false (t.text ++ content) items r.rest ∧
      r.source = items.flatMap Item.source ∧ (∃ front t, items = front ++ [.tag t]) ∧
      Balanced (items.filterMap Item.tag?) := by
  obtain ⟨s, hs⟩ : ∃ s, t.text ++ content = '<' :: s := ⟨_, rfl⟩
  rw [hs] at hfront ⊢
  have hitem := readItem_tag false hfront
  unfold readBlock at h
  split at h
  · cases h
  · split at h
    · rename_i hself
      cases h
      refine ⟨[.tag t], .cons hitem .nil, by simp [Item.source], ⟨[], t, rfl⟩, ?_, ?_⟩
      · intro front back hsplit hne hback
        have hlength := congrArg List.length hsplit
        have hpos := List.length_pos_iff.2 hne
        have hpos' := List.length_pos_iff.2 hback
        simp [Item.tag?] at hlength
        omega
      · simp [Item.tag?, weightOf, Tag.weight, hopen, hself]
    · rename_i hself
      obtain ⟨r', hr, rfl⟩ := map_eq_ok h
      obtain ⟨items, hitems, hsource, hsettles⟩ := exists_items_of_readContent Nat.one_pos hr
      have hweight : t.weight = 1 := by simp [Tag.weight, hopen, hself]
      refine ⟨.tag t :: items, .cons hitem hitems, by simp [Item.source, hsource], ?_, ?_, ?_⟩
      · obtain ⟨front, u, rfl⟩ := hsettles.last
        exact ⟨.tag t :: front, u, rfl⟩
      · intro front back hsplit hne hback
        cases front with
        | nil => exact absurd rfl hne
        | cons u front =>
            obtain ⟨rfl, htail⟩ := List.cons.inj hsplit
            have hproper := hsettles.proper front back htail hback
            show 1 ≤ t.weight + weightOf front
            omega
      · have htotal := hsettles.total
        show t.weight + weightOf (items.filterMap Item.tag?) = 0
        omega

end ElementBundle.Markup
