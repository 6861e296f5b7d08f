import ElementBundle.Text.Search

/-! # Patterns

A pattern takes the front of a text in several ways, and a matcher that goes
back on its choices comes upon them in a fixed order: the first alternative
before the second one, and one more repetition before none or the other way
round. `Pattern.ways` lists all of them, and the matcher stops at the first.
-/

namespace ElementBundle.Text

/-- Patterns of texts, some of whose parts are groups. -/
inductive Pattern (γ : Type) where
  | empty
  | one (p : Char → Bool)
  /-- A character of a class follows and is not taken. -/
  | ahead (p : Char → Bool)
  | seq (first second : Pattern γ)
  | alt (first second : Pattern γ)
  /-- Any number of repetitions: as many as possible first, or as few. -/
  | star (greedy : Bool) (body : Pattern γ)
  | group (g : γ) (body : Pattern γ)

/-- One way to take the front of a text: the groups, all that is taken, and the rest. -/
structure Way (γ : Type) where
  groups : List (γ × List Char)
  text : List Char
  rest : List Char
  deriving DecidableEq, Repr

variable {γ : Type}

def Way.stay (s : List Char) : Way γ := ⟨[], [], s⟩

def Way.andThen (w v : Way γ) : Way γ :=
  ⟨w.groups ++ v.groups, w.text ++ v.text, v.rest⟩

/-- The ways to repeat what can be done once. A repetition takes at least one character. -/
def repeated (greedy : Bool) (once : List Char → List (Way γ)) (s : List Char) : List (Way γ) :=
  let more := (once s).flatMap fun w =>
    if _h : w.rest.length < s.length then (repeated greedy once w.rest).map w.andThen else []
  if greedy then more ++ [.stay s] else .stay s :: more
termination_by s.length
decreasing_by exact _h

/-- All ways in which a pattern takes the front of a text, in the order of preference. -/
def Pattern.ways : Pattern γ → List Char → List (Way γ)
  | .empty, s => [.stay s]
  | .one _, [] => []
  | .one p, c :: s => if p c then [⟨[], [c], s⟩] else []
  | .ahead p, s => if s.head?.any p then [.stay s] else []
  | .seq a b, s => (a.ways s).flatMap fun w => (b.ways w.rest).map w.andThen
  | .alt a b, s => a.ways s ++ b.ways s
  | .star greedy a, s => repeated greedy a.ways s
  | .group g a, s => (a.ways s).map fun w => ⟨(g, w.text) :: w.groups, w.text, w.rest⟩

/-- What a matcher finds that tries the ways one after the other. -/
def Pattern.first? (p : Pattern γ) (s : List Char) : Option (Way γ) :=
  (p.ways s).head?

/-- A part that may be missing, but is taken if possible. -/
def Pattern.maybe (p : Pattern γ) : Pattern γ := .alt p .empty

def Pattern.char (c : Char) : Pattern γ := .one (· == c)

theorem map_stay_andThen (s : List Char) (ws : List (Way γ)) :
    ws.map (Way.stay s).andThen = ws :=
  List.map_id ws

/-! ## Runs of a class -/

theorem repeated_one_nil (greedy : Bool) (p : Char → Bool) :
    repeated greedy (Pattern.one p : Pattern γ).ways [] = [.stay []] := by
  rw [repeated]
  cases greedy <;> rfl

theorem repeated_one_cons (p : Char → Bool) (c : Char) (s : List Char) :
    repeated true (Pattern.one p : Pattern γ).ways (c :: s) =
      (if p c then (repeated true (Pattern.one p).ways s).map (Way.andThen ⟨[], [c], s⟩) else []) ++
        [.stay (c :: s)] := by
  rw [repeated]
  by_cases hc : p c = true <;> simp [Pattern.ways, hc]

/-- Of all the ways to take a run of a class, only the longest one has a continuation that cannot
start with a character of the class. -/
theorem flatMap_repeated_one {p : Char → Bool} {β : Type} {next : Way γ → List β}
    (hnext : ∀ w : Way γ, w.rest.head?.any p = true → next w = []) (s : List Char) :
    (repeated true (Pattern.one p).ways s).flatMap next =
      next ⟨[], s.takeWhile p, s.dropWhile p⟩ := by
  induction s generalizing next with
  | nil => simp [repeated_one_nil, Way.stay]
  | cons c s ih =>
      rw [repeated_one_cons]
      by_cases hc : p c = true
      · have hstay : next (.stay (c :: s)) = [] := hnext _ hc
        have htail : (repeated true (Pattern.one p).ways s).flatMap
              (fun w => next (Way.andThen ⟨[], [c], s⟩ w)) =
            next (Way.andThen ⟨[], [c], s⟩ ⟨[], s.takeWhile p, s.dropWhile p⟩) :=
          ih fun w hw => hnext _ hw
        simp only [hc, if_true, List.flatMap_append, List.flatMap_map, htail,
          List.takeWhile_cons_of_pos, List.dropWhile_cons_of_pos, List.flatMap_singleton, hstay,
          List.append_nil]
        rfl
      · simp [hc, Way.stay]

end ElementBundle.Text
