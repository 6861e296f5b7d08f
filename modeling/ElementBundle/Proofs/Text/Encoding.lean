import ElementBundle.Text.Lines
import ElementBundle.Text.Utf8

/-! # Reading back what was written

Decoding the bytes of a text gives the text, and unifying the line ends changes nothing in a text
without carriage returns. So such a text is read as it was written.
-/

namespace ElementBundle.Text

/-! ## Bytes -/

theorem toNat_toUInt8 {n : Nat} (h : n < 256) : n.toUInt8.toNat = n := by
  simpa using Nat.mod_eq_of_lt h

theorem takeContinuation_cons {low high : UInt8} {n : Nat} (max : Nat) (hlow : low.toNat ≤ n)
    (hhigh : n ≤ high.toNat) (s : List UInt8) :
    takeContinuation (max + 1) low high (n.toUInt8 :: s) =
      n.toUInt8 :: takeContinuation max 0x80 0xBF s := by
  have hn := toNat_toUInt8 (Nat.lt_of_le_of_lt hhigh high.toNat_lt)
  simp [takeContinuation, UInt8.le_iff_toNat_le, hn, hlow, hhigh]

theorem takeContinuation_mod {n : Nat} (max : Nat) (s : List UInt8) :
    takeContinuation (max + 1) 0x80 0xBF ((0x80 + n % 64).toUInt8 :: s) =
      (0x80 + n % 64).toUInt8 :: takeContinuation max 0x80 0xBF s :=
  takeContinuation_cons max (by simp) (by simp; omega) s

theorem utf8Lead?_two {n : Nat} (hlow : 0x80 ≤ n) (hhigh : n < 0x800) :
    utf8Lead? (0xC0 + n / 64).toUInt8 = some ⟨1, 0x80, 0xBF, n / 64⟩ := by
  have hn : (0xC0 + n / 64).toUInt8.toNat = 0xC0 + n / 64 := toNat_toUInt8 (by omega)
  have hin : 2 ≤ n / 64 ∧ n / 64 ≤ 31 := by omega
  simp only [utf8Lead?, hn]
  rw [if_pos (by simp; omega)]
  simp

/-- The second of three bytes is bounded by the first: below for short numbers, above for
surrogates. -/
theorem utf8Lead?_three {n : Nat} (hlow : 0x800 ≤ n) (hhigh : n < 0x10000)
    (hvalid : n < 0xD800 ∨ 0xDFFF < n) :
    ∃ low high, utf8Lead? (0xE0 + n / 4096).toUInt8 = some ⟨2, low, high, n / 4096⟩ ∧
      low.toNat ≤ 0x80 + n / 64 % 64 ∧ 0x80 + n / 64 % 64 ≤ high.toNat := by
  by_cases hzero : n / 4096 = 0
  · exact ⟨0xA0, 0xBF, by simp [utf8Lead?, hzero], by simp; omega, by simp; omega⟩
  · by_cases hD : n / 4096 = 0xD
    · exact ⟨0x80, 0x9F, by simp [utf8Lead?, hD], by simp, by simp; omega⟩
    · have hn : (0xE0 + n / 4096).toUInt8.toNat = 0xE0 + n / 4096 := toNat_toUInt8 (by omega)
      refine ⟨0x80, 0xBF, ?_, by simp, by simp; omega⟩
      simp only [utf8Lead?, hn]
      rw [if_neg (by simp; omega), if_neg (by simpa using hzero), if_neg (by simp; omega),
        if_pos (by simp; omega)]
      simp

/-- The second of four bytes is bounded by the first: below for short numbers, above for the end of
the code space. -/
theorem utf8Lead?_four {n : Nat} (hlow : 0x10000 ≤ n) (hhigh : n < 0x110000) :
    ∃ low high, utf8Lead? (0xF0 + n / 262144).toUInt8 = some ⟨3, low, high, n / 262144⟩ ∧
      low.toNat ≤ 0x80 + n / 4096 % 64 ∧ 0x80 + n / 4096 % 64 ≤ high.toNat := by
  by_cases hzero : n / 262144 = 0
  · exact ⟨0x90, 0xBF, by simp [utf8Lead?, hzero], by simp; omega, by simp; omega⟩
  · by_cases hfour : n / 262144 = 4
    · exact ⟨0x80, 0x8F, by simp [utf8Lead?, hfour], by simp, by simp; omega⟩
    · refine ⟨0x80, 0xBF, ?_, by simp, by simp; omega⟩
      obtain h | h | h : n / 262144 = 1 ∨ n / 262144 = 2 ∨ n / 262144 = 3 := by omega
      all_goals simp [utf8Lead?, h]

/-! ## Characters -/

theorem decodeUtf8From_lead {b : UInt8} {lead : Utf8Lead} {more rest : List UInt8} (offset : Nat)
    (hb : ¬ b < 0x80) (hlead : utf8Lead? b = some lead) (hlength : more.length = lead.more)
    (hmore : takeContinuation lead.more lead.low lead.high (more ++ rest) = more) :
    decodeUtf8From offset (b :: more ++ rest) =
      (decodeUtf8From (offset + 1 + lead.more) rest).map (assemble lead.bits more :: ·) := by
  rw [List.cons_append, decodeUtf8From, if_neg hb, hlead]
  simp only [hmore, hlength, if_true]
  rw [← hlength, List.drop_left]

theorem not_toUInt8_lt {n : Nat} (hlow : 0x80 ≤ n) (hhigh : n < 256) : ¬ n.toUInt8 < 0x80 := by
  rw [UInt8.lt_iff_toNat_lt, toNat_toUInt8 hhigh]
  exact Nat.not_lt.2 hlow

theorem toNat_continuation (n : Nat) : (0x80 + n % 64).toUInt8.toNat - 0x80 = n % 64 := by
  rw [toNat_toUInt8 (by omega), Nat.add_sub_cancel_left]

section
variable {n : Nat} (offset : Nat) (rest : List UInt8)

theorem decodeUtf8From_one (h : n < 0x80) :
    decodeUtf8From offset ([n.toUInt8] ++ rest) =
      (decodeUtf8From (offset + 1) rest).map (Char.ofNat n :: ·) := by
  have hlt : n.toUInt8 < 0x80 := by
    rw [UInt8.lt_iff_toNat_lt, toNat_toUInt8 (by omega)]
    exact h
  rw [List.singleton_append, decodeUtf8From, if_pos hlt, toNat_toUInt8 (by omega)]

theorem decodeUtf8From_two (hlow : 0x80 ≤ n) (hhigh : n < 0x800) :
    decodeUtf8From offset ([(0xC0 + n / 64).toUInt8, (0x80 + n % 64).toUInt8] ++ rest) =
      (decodeUtf8From (offset + 2) rest).map (Char.ofNat n :: ·) := by
  rw [decodeUtf8From_lead offset (not_toUInt8_lt (by omega) (by omega)) (utf8Lead?_two hlow hhigh) rfl
    (by rw [List.singleton_append, takeContinuation_mod 0, takeContinuation])]
  simp only [assemble, List.foldl, toNat_continuation]
  rw [Nat.div_add_mod']

theorem decodeUtf8From_three (hlow : 0x800 ≤ n) (hhigh : n < 0x10000)
    (hvalid : n < 0xD800 ∨ 0xDFFF < n) :
    decodeUtf8From offset ([(0xE0 + n / 4096).toUInt8, (0x80 + n / 64 % 64).toUInt8,
        (0x80 + n % 64).toUInt8] ++ rest) =
      (decodeUtf8From (offset + 3) rest).map (Char.ofNat n :: ·) := by
  obtain ⟨low, high, hlead, hsecond, hsecond'⟩ := utf8Lead?_three hlow hhigh hvalid
  rw [decodeUtf8From_lead offset (not_toUInt8_lt (by omega) (by omega)) hlead rfl
    (by rw [List.cons_append, takeContinuation_cons 1 hsecond hsecond', List.singleton_append,
      takeContinuation_mod 0, takeContinuation])]
  have hsum : (n / 4096 * 64 + n / 64 % 64) * 64 + n % 64 = n := by omega
  simp only [assemble, List.foldl, toNat_continuation, hsum]

theorem decodeUtf8From_four (hlow : 0x10000 ≤ n) (hhigh : n < 0x110000) :
    decodeUtf8From offset ([(0xF0 + n / 262144).toUInt8, (0x80 + n / 4096 % 64).toUInt8,
        (0x80 + n / 64 % 64).toUInt8, (0x80 + n % 64).toUInt8] ++ rest) =
      (decodeUtf8From (offset + 4) rest).map (Char.ofNat n :: ·) := by
  obtain ⟨low, high, hlead, hsecond, hsecond'⟩ := utf8Lead?_four hlow hhigh
  rw [decodeUtf8From_lead offset (not_toUInt8_lt (by omega) (by omega)) hlead rfl
    (by rw [List.cons_append, takeContinuation_cons 2 hsecond hsecond', List.cons_append,
      takeContinuation_mod 1, List.singleton_append, takeContinuation_mod 0, takeContinuation])]
  have hsum : ((n / 262144 * 64 + n / 4096 % 64) * 64 + n / 64 % 64) * 64 + n % 64 = n := by omega
  simp only [assemble, List.foldl, toNat_continuation, hsum]

end

theorem decodeUtf8From_encodeChar (offset : Nat) (c : Char) (rest : List UInt8) :
    decodeUtf8From offset (encodeChar c ++ rest) =
      (decodeUtf8From (offset + (encodeChar c).length) rest).map (c :: ·) := by
  have hvalid : c.toNat < 0xD800 ∨ 0xDFFF < c.toNat ∧ c.toNat < 0x110000 := c.valid
  have hchar := Char.ofNat_toNat c
  unfold encodeChar
  generalize c.toNat = n at hvalid hchar
  subst hchar
  by_cases hone : n < 0x80
  · simp only [if_pos hone, decodeUtf8From_one offset rest hone, List.length_singleton]
  · by_cases htwo : n < 0x800
    · simp only [if_neg hone, if_pos htwo,
        decodeUtf8From_two offset rest (Nat.not_lt.1 hone) htwo, List.length_cons, List.length_nil]
    · by_cases hthree : n < 0x10000
      · simp only [if_neg hone, if_neg htwo, if_pos hthree, List.length_cons, List.length_nil,
          decodeUtf8From_three offset rest (Nat.not_lt.1 htwo) hthree (hvalid.imp_right And.left)]
      · simp only [if_neg hone, if_neg htwo, if_neg hthree, List.length_cons, List.length_nil,
          decodeUtf8From_four offset rest (Nat.not_lt.1 hthree) (by omega)]

theorem decodeUtf8_encodeUtf8 (s : List Char) : decodeUtf8 (encodeUtf8 s) = .ok s := by
  have hfrom : ∀ offset, decodeUtf8From offset (encodeUtf8 s) = .ok s := by
    induction s with
    | nil => intro offset; simp [encodeUtf8, decodeUtf8From]
    | cons c s ih =>
      intro offset
      rw [encodeUtf8, List.flatMap_cons, decodeUtf8From_encodeChar, ← encodeUtf8, ih]
      rfl
  exact hfrom 0

/-! ## Line ends -/

theorem not_mem_unifyNewlines (s : List Char) : '\r' ∉ unifyNewlines s := by
  fun_induction unifyNewlines s with
  | case1 => simp
  | case2 s ih => simpa using ih
  | case3 s _ ih => simpa using ih
  | case4 c s _ hc ih =>
    simp only [List.mem_cons, not_or]
    exact ⟨fun h => hc h.symm, ih⟩

theorem unifyNewlines_of_not_mem {s : List Char} (h : '\r' ∉ s) : unifyNewlines s = s := by
  fun_induction unifyNewlines s with
  | case1 => rfl
  | case2 => simp at h
  | case3 => simp at h
  | case4 c s _ _ ih => rw [ih (fun hs => h (List.mem_cons_of_mem c hs))]

end ElementBundle.Text
