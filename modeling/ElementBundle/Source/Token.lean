import ElementBundle.Markup.Block

/-!
# Tokens of a source

A source falls into plain code, comments, string literals and markup blocks. `readToken` takes the
token at the front of a text, and the token and the rest make up the text: `readToken_source`.
Markup may be left unrecognised, in which case it is code.
-/

namespace ElementBundle.Source

open ElementBundle.Text ElementBundle.Markup

/-- A token and its source text. A markup token also carries the block. -/
inductive Token where
  | code (text : List Char)
  | lineComment (text : List Char)
  | blockComment (text : List Char)
  | string (text : List Char)
  | markup (text : List Char) (block : Block)
  deriving DecidableEq, Repr

def Token.text : Token → List Char
  | .code s | .lineComment s | .blockComment s | .string s | .markup s _ => s

inductive Opener where
  | lineComment
  | blockComment
  | string
  | markup (tag : Tag) (rest : List Char)

/-- The mark at the front of a text, if there is one. Two slashes after a colon are none, and a
closing tag is none. -/
def opener? (markup afterColon : Bool) (c : Char) (s : List Char) : Option Opener :=
  if c = '/' then
    match s with
    | '/' :: _ => if afterColon then none else some .lineComment
    | '*' :: _ => some .blockComment
    | _ => none
  else if isQuote c then some .string
  else if markup && c == '<' then
    match Tag.read? (c :: s) with
    | some (t, rest) => if t.closing then none else some (.markup t rest)
    | none => none
  else none

def startsLineComment (afterColon : Bool) : List Char → Bool
  | '/' :: '/' :: _ => !afterColon
  | _ => false

/-- For each offset of a text, its end included, whether a line comment may start there. -/
def lineCommentStarts (afterColon : Bool) : List Char → List Bool
  | [] => [false]
  | c :: s => startsLineComment afterColon (c :: s) :: lineCommentStarts (c == ':') s

def readCode (markup afterColon : Bool) : List Char → List Char × List Char
  | [] => ([], [])
  | c :: s =>
    if (opener? markup afterColon c s).isSome then ([], c :: s)
    else
      let (code, rest) := readCode markup (c == ':') s
      (c :: code, rest)

/-- A string literal after its first quote: the text up to and with the last quote, whether there is
one, and the rest. A backslash hides the character after it. -/
def readString (delimiter : Char) : List Char → List Char × Bool × List Char
  | [] => ([], false, [])
  | ['\\'] => (['\\'], false, [])
  | '\\' :: c :: s =>
    let (text, closed, rest) := readString delimiter s
    ('\\' :: c :: text, closed, rest)
  | c :: s =>
    if c = delimiter then ([c], true, s)
    else
      let (text, closed, rest) := readString delimiter s
      (c :: text, closed, rest)

/-- A token, the mode in which it leaves the scanner, and the rest. -/
structure TokenRead where
  token : Token
  mode : Mode := .code
  rest : List Char

def readToken (markup : Bool) (c : Char) (s : List Char) : Except BlockFault TokenRead :=
  match opener? markup false c s with
  | some .lineComment =>
    let rest := (c :: s).dropWhile (· ≠ '\n')
    .ok { token := .lineComment ((c :: s).takeWhile (· ≠ '\n'))
          mode := if rest.isEmpty then .lineComment else .code
          rest := rest }
  | some .blockComment =>
    match findFirst? ['*', '/'] (s.drop 1) with
    | some (body, rest) => .ok { token := .blockComment (c :: s.take 1 ++ body ++ ['*', '/']), rest }
    | none => .ok { token := .blockComment (c :: s), mode := .blockComment, rest := [] }
  | some .string =>
    let (text, closed, rest) := readString c s
    .ok { token := .string (c :: text), mode := if closed then .code else .string c, rest }
  | some (.markup t rest) =>
    (readBlock t rest).map fun r => { token := .markup r.source r.block, rest := r.rest }
  | none =>
    let (code, rest) := readCode markup (c == ':') s
    .ok { token := .code (c :: code), rest }

theorem readCode_append (markup afterColon : Bool) (s : List Char) :
    (readCode markup afterColon s).1 ++ (readCode markup afterColon s).2 = s := by
  induction s generalizing afterColon with
  | nil => rfl
  | cons c s ih =>
    rw [readCode]
    split
    · rfl
    · simpa using ih (c == ':')

theorem readString_append (delimiter : Char) (s : List Char) :
    (readString delimiter s).1 ++ (readString delimiter s).2.2 = s := by
  fun_induction readString delimiter s with
  | case1 => rfl
  | case2 => rfl
  | case3 c s text closed rest h ih => simpa [h] using ih
  | case4 s _ _ => rfl
  | case5 c s _ _ hc text closed rest h ih => simpa [h] using ih

theorem opener?_markup {markup afterColon : Bool} {c : Char} {s rest : List Char} {t : Tag}
    (h : opener? markup afterColon c s = some (.markup t rest)) :
    t.closing = false ∧ t.text ++ rest = c :: s := by
  unfold opener? at h
  split at h
  · split at h <;> simp at h
  · split at h
    · simp at h
    · split at h
      · split at h
        · rename_i t' rest' ht
          split at h
          · simp at h
          · rename_i hc
            simp only [Option.some.injEq, Opener.markup.injEq] at h
            obtain ⟨rfl, rfl⟩ := h
            exact ⟨by simpa using hc, (Tag.read?_eq_some ht).symm⟩
        · simp at h
      · simp at h

theorem readToken_source {markup : Bool} {c : Char} {s : List Char} {r : TokenRead}
    (h : readToken markup c s = .ok r) : r.token.text ++ r.rest = c :: s := by
  unfold readToken at h
  split at h
  · cases h
    exact List.takeWhile_append_dropWhile
  · split at h
    · rename_i body rest hb
      cases h
      have hs := findFirst?_append hb
      have ht := List.take_append_drop 1 s
      rw [hs] at ht
      conv => rhs; rw [← ht]
      simp [Token.text]
    · cases h
      simp [Token.text]
  · cases h
    simpa [Token.text] using readString_append c s
  · rename_i t rest ho
    obtain ⟨r', hr, rfl⟩ := map_eq_ok h
    simpa [Token.text] using (readBlock_source hr).trans (opener?_markup ho).2
  · cases h
    simpa [Token.text] using readCode_append markup (c == ':') s

theorem readToken_text_ne_nil {markup : Bool} {c : Char} {s : List Char} {r : TokenRead}
    (h : readToken markup c s = .ok r) : r.token.text ≠ [] := by
  unfold readToken at h
  split at h
  · rename_i ho
    cases h
    have hc : c ≠ '\n' := by
      rintro rfl
      simp [opener?, isQuote] at ho
    simp [Token.text, hc]
  · split at h <;> cases h <;> simp [Token.text]
  · cases h
    simp [Token.text]
  · obtain ⟨r', hr, rfl⟩ := map_eq_ok h
    exact readBlock_source_ne_nil hr
  · cases h
    simp [Token.text]

theorem readToken_rest_lt {markup : Bool} {c : Char} {s : List Char} {r : TokenRead}
    (h : readToken markup c s = .ok r) : r.rest.length < (c :: s).length := by
  have source := congrArg List.length (readToken_source h)
  have pos := List.length_pos_iff.2 (readToken_text_ne_nil h)
  simp only [List.length_append] at source
  omega

end ElementBundle.Source
