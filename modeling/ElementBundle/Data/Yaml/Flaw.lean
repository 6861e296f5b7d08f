import ElementBundle.Data.Value

/-!
# What is wrong with a YAML text

A text that breaks the rules of YAML is malformed. Some texts are well formed and still have no value
or cannot be kept: a scalar that its tag does not allow, a key that cannot be one, comments that
claim one place.
-/

namespace ElementBundle.Data.Yaml

/-- The causes for which a text has no value or cannot be kept. -/
inductive Flaw where
  /-- The rules of YAML are broken. -/
  | malformed
  /-- An escape for a character that does not exist. -/
  | noCharacter (code : Nat)
  /-- A version of YAML whose scalars are not known. -/
  | unknownVersion
  /-- Two comments for one place. -/
  | crowdedComments
  /-- A comment in the head of a block scalar, and comments in front of the scalar. -/
  | commentedHead
  /-- A whole number with wrong digits. -/
  | notInt (base : Nat) (text : List Char)
  /-- A whole number with more digits than can be read. -/
  | tooManyDigits (n : Nat)
  /-- A number with wrong digits. -/
  | notFloat (text : List Char)
  /-- A number without any character. -/
  | emptyNumber
  /-- A number that the marks of exponents divide into other than two parts. -/
  | exponents (parts : Nat)
  /-- A word that is no truth value. -/
  | notTruth
  /-- Numbers that are no date or no time. -/
  | badStamp (error : StampError)
  /-- A key that holds something that can change. -/
  | changeableKey
  /-- A key that stands twice in an ordered mapping. -/
  | repeatedKey
  /-- A mapping that is merged into itself. -/
  | selfMerge
  deriving DecidableEq, Repr

/-- The words for a whole number with too many digits, which a reader counts. -/
def digitLimitText (digits : Option Nat) : String :=
  let counted := (digits.map fun n => ": value has " ++ toString n ++ " digits").getD ""
  "Exceeds the limit (" ++ toString digitLimit ++ " digits) for integer string conversion" ++ counted ++
    "; use sys.set_int_max_str_digits() to increase the limit"

/-- The text of a flaw that has one. A wrong whole number is shown up to a length. -/
def Flaw.text? : Flaw → Option String
  | .noCharacter _ => some "chr() arg not in range(0x110000)"
  | .notInt base text =>
    some ("invalid literal for int() with base " ++ toString base ++ ": " ++
      String.ofList ((Text.shown text).take 200))
  | .tooManyDigits n => some (digitLimitText (some n))
  | .notFloat text =>
    some ("could not convert string to float: " ++ String.ofList (Text.shown text))
  | .exponents parts =>
    some (if parts < 2 then "not enough values to unpack (expected 2, got 1)"
      else "too many values to unpack (expected 2)")
  | .badStamp error => some error.text
  | _ => none

end ElementBundle.Data.Yaml
