import ElementBundle.Data.Yaml.Flaw

/-!
# Bytes in scalars

Bytes are written with sixty-four characters, six bits each, four characters for three bytes. Where
bytes are missing at the end, signs fill up the last four characters. Other characters mean nothing.
-/

namespace ElementBundle.Data.Yaml

def sixBitChars : List Char :=
  "ABCDEFGHIJKLMNOPQRSTUVWXYZabcdefghijklmnopqrstuvwxyz0123456789+/".toList

def sixBits? (c : Char) : Option Nat :=
  sixBitChars.findIdx? (· == c)

/-- The bytes of characters. `count` characters of the present four have been read, and `bits` is
what they have left over; `fill` signs stand behind them. -/
def decodeBits : List Char → Nat → Nat → Nat → Option (List UInt8)
  | [], count, _, _ => if count = 0 then some [] else none
  | c :: s, count, bits, fill =>
    if c == '=' then
      if 2 ≤ count && 4 ≤ count + fill + 1 then some []
      else decodeBits s count bits (if 2 ≤ count then fill + 1 else fill)
    else
      match sixBits? c with
      | none => decodeBits s count bits fill
      | some n =>
        match count with
        | 0 => decodeBits s 1 n 0
        | 1 => (decodeBits s 2 (n % 16) 0).map ((bits * 4 + n / 16).toUInt8 :: ·)
        | 2 => (decodeBits s 3 (n % 4) 0).map ((bits * 16 + n / 4).toUInt8 :: ·)
        | _ => (decodeBits s 0 0 0).map ((bits * 64 + n).toUInt8 :: ·)

def readBytes (text : List Char) : Except Flaw (List UInt8) :=
  if text.all fun c => c.toNat < 128 then
    match decodeBits text 0 0 0 with
    | some bytes => .ok bytes
    | none => .error .malformed
  else .error .malformed

def sixBitChar (n : Nat) : Char :=
  (sixBitChars[n % 64]?).getD 'A'

def encodeBits : List UInt8 → List Char
  | a :: b :: c :: s =>
    let n := (a.toNat * 256 + b.toNat) * 256 + c.toNat
    sixBitChar (n / 262144) :: sixBitChar (n / 4096) :: sixBitChar (n / 64) :: sixBitChar n ::
      encodeBits s
  | [a, b] =>
    let n := (a.toNat * 256 + b.toNat) * 256
    [sixBitChar (n / 262144), sixBitChar (n / 4096), sixBitChar (n / 64), '=']
  | [a] => [sixBitChar (a.toNat / 4), sixBitChar (a.toNat * 16), '=', '=']
  | [] => []

/-- Characters in lines of seventy-six. The fuel bounds the number of lines. -/
def inLines : Nat → List Char → List Char
  | 0, _ | _, [] => []
  | fuel + 1, s => s.take 76 ++ '\n' :: inLines fuel (s.drop 76)

def bytesText (bytes : List UInt8) : List Char :=
  let s := encodeBits bytes
  inLines (s.length + 1) s

end ElementBundle.Data.Yaml
