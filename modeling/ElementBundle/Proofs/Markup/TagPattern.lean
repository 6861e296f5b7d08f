import ElementBundle.Proofs.Markup.Attributes
import ElementBundle.Proofs.Text.Pattern
import ElementBundle.Proofs.Text.Search
import ElementBundle.Proofs.Text.Words

/-! # The pattern of tags

A tag is given by a pattern, and a matcher that goes back on its choices may take
the front of a text in more than one way: a shorter name, a slash that belongs to
the attributes, another end of a quoted value. None of them leads elsewhere. The
ways that succeed are those of one pass over the text without any choice, and
there is more than one of them only if a slash stands before the end mark.
-/

namespace ElementBundle.Markup

open ElementBundle.Text

/-! ## The pattern -/

/-- The groups of the pattern of tags. -/
inductive TagGroup where
  | close
  | name
  | attributes
  | self
  deriving DecidableEq, Repr

/-- A character, then as many as possible of a class, then a character. -/
def enclosed (opening : Char) (p : Char → Bool) (closing : Char) : Pattern TagGroup :=
  .seq (.char opening) (.seq (.star true (.one p)) (.char closing))

def isUnbraced (c : Char) : Bool :=
  !(c == '{' || c == '}')

def chunkPattern : Pattern TagGroup :=
  .alt (.one isLoose) <| .alt (enclosed '"' (· != '"') '"') <|
    .alt (enclosed '\'' (· != '\'') '\'') (enclosed '{' isUnbraced '}')

def stopPattern : Pattern TagGroup :=
  .seq (.group .self (.maybe (.char '/'))) (.char '>')

/-- As few stretches as possible, and the end of the tag. -/
def attributesPattern : Pattern TagGroup :=
  .seq (.group .attributes (.star false chunkPattern)) stopPattern

def tagPattern : Pattern TagGroup :=
  .seq (.char '<') <| .seq (.group .close (.maybe (.char '/'))) <|
    .seq (.group .name (.seq (.one Char.isAlpha) (.star true (.one isNameRest)))) <|
      .seq (.ahead fun c => isBlank c || c == '/' || c == '>') attributesPattern

def Tag.way (t : Tag) (rest : List Char) : Way TagGroup :=
  ⟨[(.close, slashIf t.closing), (.name, t.name), (.attributes, t.attributes),
    (.self, slashIf t.selfClosing)], t.text, rest⟩

/-! ## One pass -/

/-- Reads characters of a class up to a given one, which is dropped. -/
def readEnclosed? (p : Char → Bool) (closing : Char) (s : List Char) :
    Option (List Char × List Char) :=
  match s.dropWhile p with
  | [] => none
  | c :: rest => if c = closing then some (s.takeWhile p, rest) else none

/-- Reads a loose character, a quoted value or a group without braces in it. -/
def readChunk? : List Char → Option (Chunk × List Char)
  | [] => none
  | c :: s =>
    if isLoose c then some (.plain c, s)
    else if c = '"' ∨ c = '\'' then
      (readEnclosed? (· != c) c s).map fun (body, rest) => (.quoted c body, rest)
    else if c = '{' then
      (readEnclosed? isUnbraced '}' s).map fun (inside, rest) => (.group inside, rest)
    else none

theorem readEnclosed?_eq_some_iff {p : Char → Bool} {closing : Char} (hclosing : p closing = false)
    {s body rest : List Char} :
    readEnclosed? p closing s = some (body, rest) ↔
      (∀ c ∈ body, p c = true) ∧ s = body ++ closing :: rest := by
  constructor
  · intro h
    unfold readEnclosed? at h
    split at h
    · cases h
    · rename_i c u hu
      split at h
      · rename_i hc
        cases h
        refine ⟨fun d hd => List.mem_takeWhile_imp hd, ?_⟩
        rw [← hc, ← hu, List.takeWhile_append_dropWhile]
      · cases h
  · rintro ⟨hbody, rfl⟩
    have hstop : (closing :: rest).head?.any p = false := hclosing
    unfold readEnclosed?
    rw [dropWhile_append_stop hbody hstop, takeWhile_append_stop hbody hstop]
    simp

theorem forall_ne_iff {q : Char} {body : List Char} :
    (∀ c ∈ body, (c != q) = true) ↔ q ∉ body := by
  simp only [bne_iff_ne]
  exact ⟨fun h hq => h q hq rfl, fun h c hc hcq => h (hcq ▸ hc)⟩

theorem forall_isUnbraced_iff {inside : List Char} :
    (∀ c ∈ inside, isUnbraced c = true) ↔ Braceless inside := by
  have hchar : ∀ c, isUnbraced c = true ↔ c ≠ '{' ∧ c ≠ '}' := by simp [isUnbraced]
  constructor
  · intro h
    exact ⟨fun hc => ((hchar _).1 (h _ hc)).1 rfl, fun hc => ((hchar _).1 (h _ hc)).2 rfl⟩
  · intro h c hc
    exact (hchar c).2 ⟨fun he => h.1 (he ▸ hc), fun he => h.2 (he ▸ hc)⟩

/-- A chunk is read exactly if it stands at the front; so there is at most one. -/
theorem readChunk?_eq_some_iff {s rest : List Char} {p : Chunk} :
    readChunk? s = some (p, rest) ↔ p.Formed Braceless ∧ s = p.source ++ rest := by
  constructor
  · intro h
    unfold readChunk? at h
    split at h
    · cases h
    · rename_i c s
      split at h
      · rename_i hc
        cases h
        exact ⟨hc, rfl⟩
      split at h
      · rename_i hq
        obtain ⟨⟨body, r⟩, hread, he⟩ := Option.map_eq_some_iff.1 h
        cases he
        obtain ⟨hbody, rfl⟩ := (readEnclosed?_eq_some_iff (by simp)).1 hread
        exact ⟨⟨hq, forall_ne_iff.1 hbody⟩, by simp [Chunk.source]⟩
      split at h
      · rename_i hbrace
        obtain ⟨⟨inside, r⟩, hread, he⟩ := Option.map_eq_some_iff.1 h
        cases he
        obtain ⟨hinside, rfl⟩ := (readEnclosed?_eq_some_iff (by decide)).1 hread
        exact ⟨forall_isUnbraced_iff.1 hinside, by simp [Chunk.source, hbrace]⟩
      · cases h
  · rintro ⟨hp, rfl⟩
    cases p with
    | plain c =>
        have hc : isLoose c = true := hp
        simp [Chunk.source, readChunk?, hc]
    | quoted q body =>
        obtain ⟨hq, hbody⟩ := hp
        have hloose : isLoose q = false := by
          rcases hq with rfl | rfl <;> decide
        have hread : readEnclosed? (· != q) q (body ++ q :: rest) = some (body, rest) :=
          (readEnclosed?_eq_some_iff (by simp)).2 ⟨forall_ne_iff.2 hbody, rfl⟩
        simp [Chunk.source, readChunk?, hloose, hq, hread]
    | group inside =>
        have hread : readEnclosed? isUnbraced '}' (inside ++ '}' :: rest) = some (inside, rest) :=
          (readEnclosed?_eq_some_iff (by decide)).2 ⟨forall_isUnbraced_iff.2 hp, rfl⟩
        have hloose : isLoose '{' = false := by decide
        simp [Chunk.source, readChunk?, hloose, hread]

theorem length_of_readChunk? {s rest : List Char} {p : Chunk}
    (h : readChunk? s = some (p, rest)) : rest.length < s.length := by
  obtain ⟨-, rfl⟩ := readChunk?_eq_some_iff.1 h
  cases p <;> simp [Chunk.source] <;> omega

/-- Reads chunks up to the first end mark between them, and returns what stands behind it. -/
def readChunks? (s : List Char) : Option (List Chunk × List Char) :=
  if s.head? = some '>' then some ([], s.tail)
  else
    match _h : readChunk? s with
    | none => none
    | some (p, rest) => (readChunks? rest).map fun (ps, rest) => (p :: ps, rest)
termination_by s.length
decreasing_by exact length_of_readChunk? _h

/-- What one pass over a tag finds. -/
structure TagScan where
  closing : Bool
  name : List Char
  chunks : List Chunk
  rest : List Char
  deriving DecidableEq, Repr

/-- Reads a tag in one pass: the longest name, which has to end, and chunks up to the end mark. -/
def scanTag? : List Char → Option TagScan
  | '<' :: s =>
    match readSlash s with
    | (_, []) => none
    | (closing, c :: s) =>
      if c.isAlpha && endsName (s.dropWhile isNameRest) then
        (readChunks? (s.dropWhile isNameRest)).map fun (chunks, rest) =>
          ⟨closing, c :: s.takeWhile isNameRest, chunks, rest⟩
      else none
  | _ => none

/-! ## Chunks by the pattern -/

theorem ways_char (c d : Char) (s : List Char) :
    (Pattern.char c : Pattern TagGroup).ways (d :: s) = if d = c then [⟨[], [d], s⟩] else [] := by
  simp [Pattern.char, Pattern.ways]

theorem ways_enclosed {p : Char → Bool} {closing : Char} (hclosing : p closing = false)
    (opening c : Char) (s : List Char) :
    (enclosed opening p closing).ways (c :: s) =
      if c = opening then
        (readEnclosed? p closing s).toList.map fun x => ⟨[], c :: x.1 ++ [closing], x.2⟩
      else [] := by
  have hstop : ∀ w : Way TagGroup, w.rest.head?.any p = true →
      ((Pattern.char closing).ways w.rest).map w.andThen = [] := by
    intro w hw
    cases hrest : w.rest with
    | nil => rfl
    | cons d u =>
        rw [hrest] at hw
        have hd : d ≠ closing := by
          rintro rfl
          cases hclosing.symm.trans hw
        simp [ways_char, hd]
  rw [enclosed, Pattern.ways, ways_char]
  by_cases hc : c = opening
  · rw [if_pos hc, if_pos hc, List.flatMap_singleton, Pattern.ways, Pattern.ways,
      flatMap_repeated_one hstop, readEnclosed?]
    cases hrest : s.dropWhile p with
    | nil => simp [Pattern.char, Pattern.ways]
    | cons d u =>
        by_cases hd : d = closing <;> simp [ways_char, hd, Way.andThen]
  · simp [hc]

theorem ways_chunkPattern (s : List Char) :
    chunkPattern.ways s = (readChunk? s).toList.map fun x => ⟨[], x.1.source, x.2⟩ := by
  cases s with
  | nil => rfl
  | cons c s =>
      have hquoted : ∀ q, (enclosed q (· != q) q).ways (c :: s) = if c = q then
          (readEnclosed? (· != q) q s).toList.map fun x => ⟨[], c :: x.1 ++ [q], x.2⟩
        else [] := fun q => ways_enclosed (by simp) q c s
      have hgroup := ways_enclosed (show isUnbraced '}' = false by decide) '{' c s
      simp only [chunkPattern, Pattern.ways, hquoted, hgroup, readChunk?]
      by_cases hloose : isLoose c = true
      · have hne : ∀ d ∈ ['"', '\'', '{'], c ≠ d := by
          rintro d hd rfl
          simp only [List.mem_cons, List.not_mem_nil, or_false] at hd
          rcases hd with rfl | rfl | rfl <;> exact absurd hloose (by decide)
        simp only [List.forall_mem_cons] at hne
        simp [hloose, hne, Chunk.source]
      · by_cases hdouble : c = '"'
        · subst hdouble
          cases readEnclosed? (· != '"') '"' s <;> simp [hloose, Chunk.source]
        · by_cases hsingle : c = '\''
          · subst hsingle
            cases readEnclosed? (· != '\'') '\'' s <;> simp [hloose, Chunk.source]
          · by_cases hbrace : c = '{'
            · subst hbrace
              cases readEnclosed? isUnbraced '}' s <;> simp [hloose, Chunk.source]
            · simp [hloose, hdouble, hsingle, hbrace]

theorem repeated_chunkPattern (s : List Char) :
    repeated false chunkPattern.ways s = .stay s :: (readChunk? s).toList.flatMap fun x =>
      (repeated false chunkPattern.ways x.2).map (Way.andThen ⟨[], x.1.source, x.2⟩) := by
  rw [repeated, ways_chunkPattern]
  cases hread : readChunk? s with
  | none => rfl
  | some x =>
      have hlength : x.2.length < s.length := length_of_readChunk? hread
      simp [hlength]

/-! ## The end of a tag -/

theorem ways_stopPattern_end (s : List Char) :
    stopPattern.ways ('>' :: s) = [⟨[(.self, [])], ['>'], s⟩] := rfl

theorem ways_stopPattern_slash (s : List Char) :
    stopPattern.ways ('/' :: '>' :: s) = [⟨[(.self, ['/'])], ['/', '>'], s⟩] := rfl

theorem ways_stopPattern_of_ne {s : List Char} (hend : s.head? ≠ some '>')
    (hslash : s.head? = some '/' → s.tail.head? ≠ some '>') : stopPattern.ways s = [] := by
  cases s with
  | nil => rfl
  | cons c s =>
      have hc : c ≠ '>' := by simpa using hend
      have hnone : (Pattern.char '>' : Pattern TagGroup).ways (c :: s) = [] := by
        rw [ways_char, if_neg hc]
      simp only [stopPattern, Pattern.maybe, Pattern.ways, ways_char]
      by_cases hself : c = '/'
      · have hnext : s.head? ≠ some '>' := hslash (by rw [hself]; rfl)
        have hnone' : (Pattern.char '>' : Pattern TagGroup).ways s = [] := by
          cases s with
          | nil => rfl
          | cons d s =>
              rw [ways_char, if_neg (by simpa using hnext)]
        simp [hself, hnone', Way.stay, ways_char]
      · simp [hself, hnone, Way.stay]

/-! ## Attributes and the slash of a tag -/

def endsWithSlash (ps : List Chunk) : Bool :=
  ps.getLast? == some (.plain '/')

/-- The ways to read chunks as attributes and a slash that closes the tag: a slash at their end is
that one, or else it belongs to the attributes. -/
def splits (ps : List Chunk) : List (List Char × Bool) :=
  (if endsWithSlash ps then [(ps.dropLast.flatMap Chunk.source, true)] else []) ++
    [(ps.flatMap Chunk.source, false)]

theorem splits_cons {p : Chunk} {ps : List Chunk} (h : p = .plain '/' → ps ≠ []) :
    splits (p :: ps) = (splits ps).map fun x => (p.source ++ x.1, x.2) := by
  cases ps with
  | nil =>
      have hp : p ≠ .plain '/' := fun hp => h hp rfl
      simp [splits, endsWithSlash, hp]
  | cons p' ps =>
      have hlast : endsWithSlash (p :: p' :: ps) = endsWithSlash (p' :: ps) := by
        rw [endsWithSlash, List.getLast?_cons_cons]
        rfl
      simp only [splits, hlast]
      split <;> simp

/-- A text closes its tag if a slash and the end mark stand at its front. -/
def AtSelfClose (s : List Char) : Prop :=
  s.head? = some '/' ∧ s.tail.head? = some '>'

theorem exists_of_atSelfClose {s : List Char} (h : AtSelfClose s) :
    ∃ rest, s = '/' :: '>' :: rest := by
  obtain ⟨u, rfl⟩ := List.head?_eq_some_iff.1 h.1
  obtain ⟨rest, hrest⟩ := List.head?_eq_some_iff.1 h.2
  exact ⟨rest, by rw [← hrest]; rfl⟩

theorem atSelfClose_of_readChunk? {s rest : List Char} {p : Chunk}
    (hread : readChunk? s = some (p, rest)) (hp : p = .plain '/') (hrest : rest.head? = some '>') :
    AtSelfClose s := by
  obtain ⟨-, rfl⟩ := readChunk?_eq_some_iff.1 hread
  rw [hp]
  exact ⟨rfl, hrest⟩

theorem head?_of_readChunks?_nil {s rest : List Char} (h : readChunks? s = some ([], rest)) :
    s.head? = some '>' := by
  rw [readChunks?] at h
  split at h
  · assumption
  · split at h
    · cases h
    · obtain ⟨x, -, hx⟩ := Option.map_eq_some_iff.1 h
      cases hx

/-- Behind a chunk, the slash of the tag is told from the attributes as in front of it. -/
theorem splits_of_readChunk? {s rest rest' : List Char} {p : Chunk} {ps : List Chunk}
    (hself : ¬ AtSelfClose s) (hread : readChunk? s = some (p, rest))
    (hreads : readChunks? rest = some (ps, rest')) :
    splits (p :: ps) = (splits ps).map fun x => (p.source ++ x.1, x.2) := by
  apply splits_cons
  rintro hp rfl
  exact hself (atSelfClose_of_readChunk? hread hp (head?_of_readChunks?_nil hreads))

theorem readChunks?_end (s : List Char) : readChunks? ('>' :: s) = some ([], s) := by
  rw [readChunks?]
  rfl

theorem readChunk?_slash (s : List Char) : readChunk? ('/' :: s) = some (.plain '/', s) :=
  readChunk?_eq_some_iff.2 ⟨by decide, rfl⟩

theorem flatMap_repeated_chunkPattern {β : Type}
    (f : List (TagGroup × List Char) → List Char → Way TagGroup → β) (s : List Char) :
    (repeated false chunkPattern.ways s).flatMap
        (fun w => (stopPattern.ways w.rest).map (f w.groups w.text)) =
      (readChunks? s).toList.flatMap fun x => (splits x.1).map fun y =>
        f [] y.1 ⟨[(.self, slashIf y.2)], slashIf y.2 ++ ['>'], x.2⟩ := by
  fun_induction readChunks? s generalizing f with
  | case1 s hend =>
      obtain ⟨rest, rfl⟩ := List.head?_eq_some_iff.1 hend
      have hnone : readChunk? ('>' :: rest) = none := rfl
      rw [repeated_chunkPattern, hnone]
      simp [Way.stay, ways_stopPattern_end, splits, endsWithSlash, slashIf]
  | case2 s hend hread =>
      have hself : s.head? = some '/' → s.tail.head? ≠ some '>' := by
        intro hslash
        obtain ⟨u, rfl⟩ := List.head?_eq_some_iff.1 hslash
        cases hread.symm.trans (readChunk?_slash u)
      rw [repeated_chunkPattern, hread]
      simp [Way.stay, ways_stopPattern_of_ne hend hself]
  | case3 s hend p rest hread ih =>
      have htail := ih fun groups a => f groups (p.source ++ a)
      rw [repeated_chunkPattern, hread, List.flatMap_cons, Option.toList_some,
        List.flatMap_singleton, List.flatMap_map]
      by_cases hself : AtSelfClose s
      · obtain ⟨u, rfl⟩ := exists_of_atSelfClose hself
        cases hread.symm.trans (readChunk?_slash ('>' :: u))
        simp only [Way.stay, ways_stopPattern_slash, Way.andThen, List.nil_append, htail,
          readChunks?_end]
        simp [splits, endsWithSlash, slashIf, Chunk.source]
      · have hnone : stopPattern.ways s = [] :=
          ways_stopPattern_of_ne hend fun hslash htail => hself ⟨hslash, htail⟩
        simp only [Way.stay, hnone, Way.andThen, List.map_nil, List.nil_append, htail]
        cases hreads : readChunks? rest with
        | none => rfl
        | some x =>
            obtain ⟨ps, behind⟩ := x
            simp [splits_of_readChunk? hself hread hreads]

/-- The reader of attributes takes the first split of the chunks. -/
theorem readAttributes_eq_readChunks? (s : List Char) :
    readAttributes .plain s =
      (readChunks? s).bind fun x => (splits x.1).head?.map fun y => (y.1, y.2, x.2) := by
  fun_induction readChunks? s with
  | case1 s hend =>
      obtain ⟨rest, rfl⟩ := List.head?_eq_some_iff.1 hend
      rfl
  | case2 s hend hread =>
      rw [Option.bind_none, Option.eq_none_iff_forall_ne_some]
      rintro ⟨a, b, rest⟩ hattributes
      have hs := readAttributes_eq_some hattributes
      obtain ⟨ps, hps, rfl⟩ := takes_readAttributes hattributes
      cases ps with
      | nil =>
          cases b with
          | false => exact hend (by rw [hs]; rfl)
          | true =>
              have hslash := readChunk?_slash ('>' :: rest)
              rw [show s = '/' :: '>' :: rest from hs, hslash] at hread
              cases hread
      | cons p ps =>
          have hchunk : readChunk? s = some (p, ps.flatMap Chunk.source ++ (slashIf b ++ '>' :: rest)) :=
            readChunk?_eq_some_iff.2 ⟨hps p List.mem_cons_self, by simp [hs]⟩
          cases hread.symm.trans hchunk
  | case3 s hend p rest hread ih =>
      by_cases hself : AtSelfClose s
      · obtain ⟨u, rfl⟩ := exists_of_atSelfClose hself
        cases hread.symm.trans (readChunk?_slash ('>' :: u))
        rw [readChunks?_end]
        rfl
      · obtain ⟨hp, rfl⟩ := readChunk?_eq_some_iff.1 hread
        have hslash : p = .plain '/' → rest.head? ≠ some '>' := fun hp hrest =>
          hself (atSelfClose_of_readChunk? hread hp hrest)
        rw [readAttributes_chunk hp hslash, ih]
        cases hreads : readChunks? rest with
        | none => rfl
        | some x =>
            obtain ⟨ps, behind⟩ := x
            simp [splits_of_readChunk? hself hread hreads, Function.comp_def]

/-! ## Whole tags -/

/-- The tags that one pass allows, one with a slash of its own first. -/
def TagScan.tags (r : TagScan) : List Tag :=
  (splits r.chunks).map fun x => ⟨r.closing, r.name, x.1, x.2⟩

theorem ways_attributesPattern (s : List Char) :
    attributesPattern.ways s =
      (readChunks? s).toList.flatMap fun x => (splits x.1).map fun y =>
        ⟨[(.attributes, y.1), (.self, slashIf y.2)], y.1 ++ (slashIf y.2 ++ ['>']), x.2⟩ := by
  have hways := flatMap_repeated_chunkPattern (fun groups a w =>
    (⟨(.attributes, a) :: (groups ++ w.groups), a ++ w.text, w.rest⟩ : Way TagGroup)) s
  rw [attributesPattern, Pattern.ways, Pattern.ways, Pattern.ways, List.flatMap_map]
  exact hways

/-- The pattern behind the slash of a closing tag. -/
def namedPattern : Pattern TagGroup :=
  .seq (.group .name (.seq (.one Char.isAlpha) (.star true (.one isNameRest)))) <|
    .seq (.ahead fun c => isBlank c || c == '/' || c == '>') attributesPattern

theorem endsName_eq_false_of_isNameRest {s : List Char} (h : s.head?.any isNameRest = true) :
    endsName s = false := by
  cases s with
  | nil => rfl
  | cons c s =>
      have hc : isNameRest c = true := h
      have hblank : isBlank c = false := by
        rw [Bool.eq_false_iff]
        intro hb
        cases hc.symm.trans (isNameRest_eq_false_of_isBlank hb)
      have hslash : c ≠ '/' := by
        rintro rfl
        exact absurd hc (by decide)
      have hend : c ≠ '>' := by
        rintro rfl
        exact absurd hc (by decide)
      simp [endsName, hblank, hslash, hend]

theorem ways_ahead (s : List Char) :
    (Pattern.seq (.ahead fun c => isBlank c || c == '/' || c == '>') attributesPattern).ways s =
      if endsName s then attributesPattern.ways s else [] := by
  have hends : s.head?.any (fun c => isBlank c || c == '/' || c == '>') = endsName s := by
    cases s <;> rfl
  rw [Pattern.ways, Pattern.ways, hends]
  by_cases h : endsName s = true
  · rw [if_pos h, if_pos h, List.flatMap_singleton]
    exact map_stay_andThen s _
  · simp [h]

/-- A name that is not the longest one is followed by one more of its characters. -/
theorem ways_namedPattern_cons (c : Char) (s : List Char) :
    namedPattern.ways (c :: s) =
      if c.isAlpha && endsName (s.dropWhile isNameRest) then
        (attributesPattern.ways (s.dropWhile isNameRest)).map
          (Way.andThen ⟨[(.name, c :: s.takeWhile isNameRest)], c :: s.takeWhile isNameRest, []⟩)
      else [] := by
  have hnext : ∀ w : Way TagGroup, w.rest.head?.any isNameRest = true →
      ((Pattern.seq (.ahead fun c => isBlank c || c == '/' || c == '>') attributesPattern).ways
        w.rest).map (Way.andThen ⟨(.name, c :: w.text) :: w.groups, c :: w.text, w.rest⟩) = [] := by
    intro w hw
    rw [ways_ahead, endsName_eq_false_of_isNameRest hw]
    rfl
  rw [namedPattern, Pattern.ways, Pattern.ways, Pattern.ways, Pattern.ways]
  by_cases hc : c.isAlpha = true
  · rw [if_pos hc, List.flatMap_singleton, List.flatMap_map, List.flatMap_map]
    have hrun := flatMap_repeated_one hnext s
    rw [ways_ahead] at hrun
    refine hrun.trans ?_
    by_cases hends : endsName (s.dropWhile isNameRest) = true
    · simp only [hc, hends, Bool.true_and, if_true]
      rfl
    · simp [hends]
  · simp [hc]

theorem ways_close (s : List Char) :
    (Pattern.seq (.group .close (.maybe (.char '/'))) namedPattern).ways s =
      (namedPattern.ways (readSlash s).2).map
        (Way.andThen ⟨[(.close, slashIf (readSlash s).1)], slashIf (readSlash s).1, []⟩) := by
  have hstay : ∀ u, readSlash u = (false, u) → (Pattern.char '/' : Pattern TagGroup).ways u = [] →
      (Pattern.seq (.group .close (.maybe (.char '/'))) namedPattern).ways u =
        (namedPattern.ways (readSlash u).2).map
          (Way.andThen ⟨[(.close, slashIf (readSlash u).1)], slashIf (readSlash u).1, []⟩) := by
    intro u hslash hnone
    rw [hslash]
    simp only [Pattern.ways, Pattern.maybe, hnone, Way.stay, List.nil_append, List.map_cons,
      List.map_nil, List.flatMap_singleton]
    rfl
  cases s with
  | nil => exact hstay [] rfl rfl
  | cons c s =>
      by_cases hc : c = '/'
      · subst hc
        have hnone : namedPattern.ways ('/' :: s) = [] := ways_namedPattern_cons '/' s
        have hboth : (Pattern.group TagGroup.close (.maybe (.char '/'))).ways ('/' :: s) =
            [⟨[(.close, ['/'])], ['/'], s⟩, ⟨[(.close, [])], [], '/' :: s⟩] := rfl
        rw [Pattern.ways, hboth]
        simp only [List.flatMap_cons, hnone, List.map_nil, List.flatMap_nil, List.append_nil]
        rfl
      · refine hstay (c :: s) ?_ ?_
        · simp [readSlash, hc]
        · rw [ways_char, if_neg hc]

theorem ways_tagPattern (s : List Char) :
    tagPattern.ways s = (scanTag? s).toList.flatMap fun r => r.tags.map (·.way r.rest) := by
  have hpattern : tagPattern =
      .seq (.char '<') (.seq (.group .close (.maybe (.char '/'))) namedPattern) := rfl
  rw [hpattern, Pattern.ways]
  cases s with
  | nil => rfl
  | cons c s =>
      rw [ways_char]
      by_cases hc : c = '<'
      · subst hc
        rw [if_pos rfl, List.flatMap_singleton, ways_close, scanTag?]
        obtain ⟨closing, u⟩ := readSlash s
        cases u with
        | nil => rfl
        | cons d u =>
            simp only [ways_namedPattern_cons]
            split
            · rw [ways_attributesPattern]
              cases readChunks? (u.dropWhile isNameRest) with
              | none => rfl
              | some x =>
                  simp [TagScan.tags, Tag.way, Tag.text, Way.andThen, Function.comp_def]
            · rfl
      · rw [if_neg hc]
        simp [scanTag?, hc]

theorem read?_eq_scanTag? (s : List Char) :
    Tag.read? s = (scanTag? s).bind fun r => r.tags.head?.map (·, r.rest) := by
  cases s with
  | nil => rfl
  | cons c s =>
      by_cases hc : c = '<'
      · subst hc
        rw [Tag.read?, scanTag?]
        obtain ⟨closing, u⟩ := readSlash s
        cases u with
        | nil => rfl
        | cons d u =>
            simp only [readAttributes_eq_readChunks?]
            split
            · cases readChunks? (u.dropWhile isNameRest) with
              | none => rfl
              | some x =>
                  simp [TagScan.tags, Function.comp_def]
            · rfl
      · simp [Tag.read?, scanTag?, hc]

/-! ## What one pass finds -/

theorem readChunks?_eq_some_iff {s rest : List Char} {ps : List Chunk} :
    readChunks? s = some (ps, rest) ↔
      (∀ p ∈ ps, p.Formed Braceless) ∧ s = ps.flatMap Chunk.source ++ '>' :: rest := by
  constructor
  · intro h
    fun_induction readChunks? s generalizing ps with
    | case1 s hend =>
        obtain ⟨u, rfl⟩ := List.head?_eq_some_iff.1 hend
        cases h
        exact ⟨by simp, rfl⟩
    | case2 => cases h
    | case3 s hend p u hread ih =>
        obtain ⟨x, hx, he⟩ := Option.map_eq_some_iff.1 h
        cases he
        obtain ⟨hp, rfl⟩ := readChunk?_eq_some_iff.1 hread
        obtain ⟨hps, rfl⟩ := ih hx
        exact ⟨List.forall_mem_cons.2 ⟨hp, hps⟩, by simp⟩
  · rintro ⟨hps, rfl⟩
    induction ps with
    | nil => exact readChunks?_end rest
    | cons p ps ih =>
        obtain ⟨hp, hps⟩ := List.forall_mem_cons.1 hps
        have hread : readChunk? ((p :: ps).flatMap Chunk.source ++ '>' :: rest) =
            some (p, ps.flatMap Chunk.source ++ '>' :: rest) :=
          readChunk?_eq_some_iff.2 ⟨hp, by simp⟩
        have hend : ((p :: ps).flatMap Chunk.source ++ '>' :: rest).head? ≠ some '>' := by
          rw [List.flatMap_cons, List.append_assoc]
          exact head?_source_ne_end hp _
        rw [readChunks?, if_neg hend]
        split
        · rename_i hnone
          cases hnone.symm.trans hread
        · rename_i hsome
          cases hsome.symm.trans hread
          rw [ih hps]
          rfl

/-- A text is spelled by a scan: behind the longest name stand chunks, and no end mark is one. -/
structure TagScan.Spells (r : TagScan) (s : List Char) : Prop where
  text : s = '<' :: slashIf r.closing ++ r.name ++ r.chunks.flatMap Chunk.source ++ '>' :: r.rest
  name : TagName r.name
  ends : endsName (r.chunks.flatMap Chunk.source ++ '>' :: r.rest) = true
  chunks : ∀ p ∈ r.chunks, p.Formed Braceless

theorem readSlash_append (closing : Bool) {c : Char} (hc : c.isAlpha = true) (s : List Char) :
    readSlash (slashIf closing ++ c :: s) = (closing, c :: s) := by
  cases closing with
  | true => rfl
  | false =>
      have hne : c ≠ '/' := by
        rintro rfl
        exact absurd hc (by decide)
      simp [slashIf, readSlash, hne]

theorem scanTag?_eq_some_iff {s : List Char} {r : TagScan} :
    scanTag? s = some r ↔ r.Spells s := by
  constructor
  · intro h
    unfold scanTag? at h
    split at h
    · rename_i s
      have hslash : s = slashIf (readSlash s).1 ++ (readSlash s).2 := by
        unfold readSlash
        split <;> simp [slashIf]
      split at h
      · cases h
      · rename_i closing c u hread
        rw [hread] at hslash
        split at h
        · rename_i hname
          rw [Bool.and_eq_true] at hname
          obtain ⟨⟨chunks, rest⟩, hchunks, rfl⟩ := Option.map_eq_some_iff.1 h
          obtain ⟨hformed, hbehind⟩ := readChunks?_eq_some_iff.1 hchunks
          have hsplit : u = u.takeWhile isNameRest ++
              (chunks.flatMap Chunk.source ++ '>' :: rest) := by
            rw [← hbehind, List.takeWhile_append_dropWhile]
          refine ⟨?_, ⟨c, _, rfl, hname.1, fun d hd => List.mem_takeWhile_imp hd⟩, ?_, hformed⟩
          · rw [hslash]
            conv => lhs; rw [hsplit]
            simp
          · rw [← hbehind]
            exact hname.2
        · cases h
    · cases h
  · intro h
    obtain ⟨closing, name, chunks, rest⟩ := r
    obtain ⟨rfl, ⟨c, more, hname, hc, hmore⟩, hends, hchunks⟩ := h
    dsimp only at hname hends hchunks ⊢
    subst hname
    have hstop : (chunks.flatMap Chunk.source ++ '>' :: rest).head?.any isNameRest = false := by
      rw [Bool.eq_false_iff]
      intro hany
      cases hends.symm.trans (endsName_eq_false_of_isNameRest hany)
    have hread := readSlash_append closing hc (more ++ (chunks.flatMap Chunk.source ++ '>' :: rest))
    simp only [List.cons_append, List.append_assoc]
    rw [scanTag?, hread]
    simp only [takeWhile_append_stop hmore hstop, dropWhile_append_stop hmore hstop, hc, hends,
      readChunks?_eq_some_iff.2 ⟨hchunks, rfl⟩]
    rfl

/-! ## One tag, one end -/

theorem TagScan.mem_tags {r : TagScan} {t : Tag} (ht : t ∈ r.tags) :
    t.closing = r.closing ∧ t.name = r.name ∧
      t.attributes ++ slashIf t.selfClosing = r.chunks.flatMap Chunk.source := by
  obtain ⟨⟨a, b⟩, hsplit, rfl⟩ := List.mem_map.1 ht
  refine ⟨rfl, rfl, ?_⟩
  rw [splits, List.mem_append] at hsplit
  rcases hsplit with hself | hplain
  · split at hself
    · rename_i hslash
      cases List.mem_singleton.1 hself
      obtain ⟨init, hinit⟩ := List.getLast?_eq_some_iff.1 (eq_of_beq hslash)
      simp [hinit, slashIf, Chunk.source]
    · cases hself
  · cases List.mem_singleton.1 hplain
    simp [slashIf]

theorem TagScan.head?_tags (r : TagScan) :
    ∃ t, r.tags.head? = some t ∧ (t.selfClosing = true ↔ r.chunks.getLast? = some (.plain '/')) := by
  rw [TagScan.tags, splits]
  by_cases hslash : endsWithSlash r.chunks = true
  · rw [if_pos hslash]
    exact ⟨_, rfl, iff_of_true rfl (eq_of_beq hslash)⟩
  · rw [if_neg hslash]
    refine ⟨_, rfl, iff_of_false Bool.false_ne_true fun hlast => hslash ?_⟩
    rw [endsWithSlash, hlast]
    rfl

/-- At every place of a source, a matcher that tries the ways of the pattern in order finds the tag
that is read there. It finds one exactly if one pass does; then all of its ways end where the pass
ends and have its name, the longest one, and the tag closes itself exactly if a slash outside of
quoted values and groups stands before the end mark. -/
theorem tag_unambiguous (source : List Char) (offset : Nat) :
    let s := source.drop offset
    tagPattern.first? s = (Tag.read? s).map (fun x => x.1.way x.2) ∧
      ((tagPattern.first? s).isSome = true ↔ (scanTag? s).isSome = true) ∧
      ∀ r, scanTag? s = some r →
        r.Spells s ∧
        (∀ w ∈ tagPattern.ways s,
          w.rest = r.rest ∧ w.text ++ r.rest = s ∧ (.name, r.name) ∈ w.groups) ∧
        ∃ t, Tag.read? s = some (t, r.rest) ∧ t.closing = r.closing ∧ t.name = r.name ∧
          (t.selfClosing = true ↔ r.chunks.getLast? = some (.plain '/')) ∧
          t.attributes ++ slashIf t.selfClosing = r.chunks.flatMap Chunk.source := by
  intro s
  have hways := ways_tagPattern s
  have hread := read?_eq_scanTag? s
  cases hscan : scanTag? s with
  | none =>
      rw [hscan] at hways hread
      rw [Pattern.first?, hways, hread]
      exact ⟨rfl, Iff.rfl, fun r hr => by cases hr⟩
  | some r =>
      rw [hscan] at hways hread
      simp only [Option.toList_some, List.flatMap_singleton, Option.bind_some] at hways hread
      obtain ⟨t, hfirst, hself⟩ := r.head?_tags
      obtain ⟨hclosing, hname, hattributes⟩ := TagScan.mem_tags (List.mem_of_head? hfirst)
      have hspells := scanTag?_eq_some_iff.1 hscan
      rw [hfirst, Option.map_some] at hread
      have hmatch : tagPattern.first? s = some (t.way r.rest) := by
        rw [Pattern.first?, hways, List.head?_map, hfirst]
        rfl
      refine ⟨by rw [hmatch, hread]; rfl, iff_of_true (by rw [hmatch]; rfl) rfl, ?_⟩
      rintro r' hr
      cases hr
      refine ⟨hspells, fun w hw => ?_, t, hread, hclosing, hname, hself, hattributes⟩
      rw [hways] at hw
      obtain ⟨t', ht', rfl⟩ := List.mem_map.1 hw
      obtain ⟨hclosing', hname', hattributes'⟩ := TagScan.mem_tags ht'
      refine ⟨rfl, ?_, by simp [Tag.way, hname']⟩
      rw [hspells.text, ← hattributes', ← hclosing', ← hname']
      simp [Tag.way, Tag.text]

/-- A tag with end marks and slashes in a quoted value and in a group, and with two slashes of which
only the second one closes it. The pattern has two ways to take it. -/
theorem tag_unambiguous_slashes :
    let source := "x<a-b t=\"/>\" \x7b'/>\x7d//>z".toList
    let chunks : List Chunk := [.plain ' ', .plain 't', .plain '=', .quoted '"' "/>".toList,
      .plain ' ', .group "'/>".toList, .plain '/', .plain '/']
    let r : TagScan := ⟨false, "a-b".toList, chunks, ['z']⟩
    scanTag? (source.drop 1) = some r ∧ (tagPattern.ways (source.drop 1)).length = 2 ∧
      (∀ w ∈ tagPattern.ways (source.drop 1), w.rest = ['z'] ∧ w.text ++ ['z'] = source.drop 1 ∧
        (.name, "a-b".toList) ∈ w.groups) ∧
      ∃ t, Tag.read? (source.drop 1) = some (t, ['z']) ∧ t.name = "a-b".toList ∧
        t.selfClosing = true ∧ t.attributes ++ ['/'] = chunks.flatMap Chunk.source := by
  intro source chunks r
  have hscan : scanTag? (source.drop 1) = some r :=
    scanTag?_eq_some_iff.2 ⟨rfl, ⟨'a', "-b".toList, rfl, by decide,
      List.all_eq_true.1 (by decide)⟩, by decide, by decide⟩
  have htwo : (tagPattern.ways (source.drop 1)).length = 2 := by
    rw [ways_tagPattern, hscan]
    rfl
  obtain ⟨-, -, hpass⟩ := tag_unambiguous source 1
  obtain ⟨-, hways, t, hread, -, hname, hself, hattributes⟩ := hpass r hscan
  have hclosed : t.selfClosing = true := hself.2 rfl
  rw [hclosed] at hattributes
  exact ⟨hscan, htwo, hways, t, hread, hname, hclosed, hattributes⟩

end ElementBundle.Markup
