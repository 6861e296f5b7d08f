/-!
# UTF-8

Decoding a sequence of bytes. A fault names the bytes that make no character: a byte that cannot
start one, a start whose continuation is wrong, or a text that ends inside a character.
-/

namespace ElementBundle.Text

inductive Utf8Cause where
  | badStart
  | badContinuation
  | truncated
  deriving DecidableEq, Repr

/-- The first bytes that make no character: the offset of the first one and the bytes themselves. -/
structure Utf8Fault where
  offset : Nat
  bytes : List UInt8
  cause : Utf8Cause
  deriving DecidableEq, Repr

/-- What the first byte of a character says: how many bytes follow, the bounds of the one that
follows directly, and the bits that the first byte contributes. -/
structure Utf8Lead where
  more : Nat
  low : UInt8
  high : UInt8
  bits : Nat

def utf8Lead? (b : UInt8) : Option Utf8Lead :=
  let n := b.toNat
  if 0xC2 ≤ n && n ≤ 0xDF then some ⟨1, 0x80, 0xBF, n - 0xC0⟩
  else if n == 0xE0 then some ⟨2, 0xA0, 0xBF, 0⟩
  else if n == 0xED then some ⟨2, 0x80, 0x9F, 0xD⟩
  else if 0xE1 ≤ n && n ≤ 0xEF then some ⟨2, 0x80, 0xBF, n - 0xE0⟩
  else if n == 0xF0 then some ⟨3, 0x90, 0xBF, 0⟩
  else if n == 0xF4 then some ⟨3, 0x80, 0x8F, 4⟩
  else if 0xF1 ≤ n && n ≤ 0xF3 then some ⟨3, 0x80, 0xBF, n - 0xF0⟩
  else none

/-- The continuation bytes at the front, at most `max` of them, the first within given bounds. -/
def takeContinuation : Nat → UInt8 → UInt8 → List UInt8 → List UInt8
  | 0, _, _, _ => []
  | _ + 1, _, _, [] => []
  | max + 1, low, high, b :: s =>
    if low ≤ b && b ≤ high then b :: takeContinuation max 0x80 0xBF s else []

/-- The character that a lead's bits and its continuation bytes spell. -/
def assemble (bits : Nat) (more : List UInt8) : Char :=
  Char.ofNat (more.foldl (fun n b => n * 64 + (b.toNat - 0x80)) bits)

def decodeUtf8From (offset : Nat) : List UInt8 → Except Utf8Fault (List Char)
  | [] => .ok []
  | b :: s =>
    if b < 0x80 then (decodeUtf8From (offset + 1) s).map (Char.ofNat b.toNat :: ·)
    else
      match utf8Lead? b with
      | none => .error ⟨offset, [b], .badStart⟩
      | some lead =>
        let more := takeContinuation lead.more lead.low lead.high s
        if more.length = lead.more then
          (decodeUtf8From (offset + 1 + lead.more) (s.drop more.length)).map
            (assemble lead.bits more :: ·)
        else if more.length = s.length then .error ⟨offset, b :: more, .truncated⟩
        else .error ⟨offset, b :: more, .badContinuation⟩
termination_by s => s.length
decreasing_by
  · simp
  · simp only [List.length_drop, List.length_cons]
    omega

def decodeUtf8 (s : List UInt8) : Except Utf8Fault (List Char) :=
  decodeUtf8From 0 s

def byteOrderMark : List UInt8 := [0xEF, 0xBB, 0xBF]

/-- Decodes a sequence of bytes after a leading byte order mark. A text that ends inside the mark is
empty, and offsets count from the end of the mark. -/
def decodeMarkedUtf8 (s : List UInt8) : Except Utf8Fault (List Char) :=
  if s.length < 3 && s.isPrefixOf byteOrderMark then .ok []
  else if byteOrderMark.isPrefixOf s then decodeUtf8 (s.drop 3)
  else decodeUtf8 s

def encodeChar (c : Char) : List UInt8 :=
  let n := c.toNat
  if n < 0x80 then [n.toUInt8]
  else if n < 0x800 then [(0xC0 + n / 64).toUInt8, (0x80 + n % 64).toUInt8]
  else if n < 0x10000 then
    [(0xE0 + n / 4096).toUInt8, (0x80 + n / 64 % 64).toUInt8, (0x80 + n % 64).toUInt8]
  else
    [(0xF0 + n / 262144).toUInt8, (0x80 + n / 4096 % 64).toUInt8, (0x80 + n / 64 % 64).toUInt8,
      (0x80 + n % 64).toUInt8]

def encodeUtf8 (s : List Char) : List UInt8 :=
  s.flatMap encodeChar

end ElementBundle.Text
