import ElementBundle.Data.Value
import ElementBundle.Data.Yaml.Node
import ElementBundle.Data.Yaml.Scalar.Binary
import ElementBundle.Data.Yaml.Scalar.Number
import ElementBundle.Data.Yaml.Scalar.Time

/-!
# Values of scalars

The tag of a node names its type. A scalar of a type has the value that its text spells in it.
-/

namespace ElementBundle.Data.Yaml

inductive NodeType where
  | scalar (type : ScalarType)
  | bytes
  | sequence
  | mapping
  | set
  | ordered
  | pairs
  | other
  deriving DecidableEq, Repr

def scalarTypes : List ScalarType :=
  [.null, .bool, .int, .float, .stamp, .merge, .value, .text]

def NodeType.ofTag (tag : List Char) : NodeType :=
  match scalarTypes.find? (·.tag == tag) with
  | some type => .scalar type
  | none =>
    let named := [("binary", NodeType.bytes), ("seq", .sequence), ("map", .mapping), ("set", .set),
      ("omap", .ordered), ("pairs", .pairs)]
    (named.findSome? fun (name, type) =>
      if coreTag ++ name.toList == tag then some type else none).getD .other

def readTruth (text : List Char) : Except Flaw Bool :=
  let word := String.ofList (text.map Char.toLower)
  if ["yes", "y", "true", "on"].contains word then .ok true
  else if ["no", "n", "false", "off"].contains word then .ok false
  else .error .notTruth

def typedValue? (version : Version) (type : NodeType) (text : List Char) :
    Option (Except Flaw Value) :=
  match type with
  | .scalar .null => some (.ok .null)
  | .scalar .bool => some ((readTruth text).map .bool)
  | .scalar .int => some ((readInt version text).map .int)
  | .scalar .float => some ((readFloat version text).map .float)
  | .scalar .stamp => some ((readStamp text).map fun w => .stamp w.stamp)
  | .scalar .text => some (.ok (.text (String.ofList text)))
  | .bytes => some ((readBytes text).map .bytes)
  | _ => none

end ElementBundle.Data.Yaml
