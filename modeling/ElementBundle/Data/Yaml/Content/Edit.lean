import ElementBundle.Data.Yaml.Content

/-!
# Changing content

A value becomes content. Setting an entry of a mapping keeps its place and its comments; where a text
replaces a text in a block, the new one is written in a block too.
-/

namespace ElementBundle.Data.Yaml

def setTag : List Char := coreTag ++ "set".toList

def bytesTag : List Char := coreTag ++ "binary".toList

mutual

/-- The content of a value. The version of the document matters for the text of numbers. -/
def Content.ofValue (version : Option Version) : Value → Content
  | .null | .loop _ => .null
  | .bool b => .ofText .bool (if b then "true" else "false").toList
  | .int n => .ofText .int (toString n).toList
  | .float x => .ofText .float (floatText version x)
  | .text s => .ofText .text s.toList
  | .stamp s => .ofText .stamp (s.text ' ')
  | .bytes bs => .leaf none ⟨bytesTag, none⟩ (bytesText bs) .literal {}
  | .list items | .tuple items =>
    .sequence none ⟨sequenceTag, none⟩ none (itemContents version items) {} []
  | .set members =>
    .mapping none ⟨setTag, none⟩ .mapping none (memberEntries version members) none {} []
  | .mapping entries =>
    .mapping none ⟨mappingTag, none⟩ .mapping none (entryContents version entries) none {} []

def itemContents (version : Option Version) : List Value → List Content
  | [] => []
  | v :: vs => .ofValue version v :: itemContents version vs

def memberEntries (version : Option Version) : List Value → List (Entry Content)
  | [] => []
  | v :: vs =>
    { name := none, key := .ofValue version v, value := .null } :: memberEntries version vs

def entryContents (version : Option Version) : List (Value × Value) → List (Entry Content)
  | [] => []
  | (k, v) :: es =>
    { name := none, key := .ofValue version k, value := .ofValue version v } ::
      entryContents version es

end

def Content.textStyle (known : List (Nat × Content)) (c : Content) : Style :=
  let c := match c with
    | .alias id _ => (known.lookup id).getD .null
    | c => c
  match c with
  | .leaf _ label _ style _ => if label = ScalarType.text.label then style else .plain
  | _ => .plain

/-- What replaces content: it has the comments of the old one, and if both are texts its style. -/
def Content.replacement (known : List (Nat × Content)) (old : Content) (version : Option Version)
    (v : Value) : Content :=
  let new : Content := match v with
    | .text s => .leaf none ScalarType.text.label s.toList (old.textStyle known) {}
    | v => .ofValue version v
  new.withNotes old.notes

/-- Sets the value of a text key: in its place if it is there, and at the end otherwise. -/
def setEntry (known : List (Nat × Content)) (version : Option Version) (name : String) (v : Value) :
    List (Entry Content) → List (Entry Content)
  | [] =>
    [{ name := some (.text name), key := .ofText .text name.toList, value := .ofValue version v }]
  | e :: entries =>
    if e.name.any (Value.same (.text name)) then
      { e with own := true, value := e.value.replacement known version v } :: entries
    else e :: setEntry known version name v entries

/-- Sets keys of a mapping. Other content gives way to a mapping with these keys. -/
def Content.update (known : List (Nat × Content)) (version : Option Version)
    (values : List (String × Value)) (c : Option Content) : Content :=
  let set (entries : List (Entry Content)) :=
    values.foldl (fun entries (name, v) => setEntry known version name v entries) entries
  match c with
  | some (.mapping anchor label layout flow entries merge notes ending) =>
    if layout = .set then .mapping none ⟨mappingTag, none⟩ .mapping none (set []) none {} []
    else .mapping anchor label layout flow (set entries) merge notes ending
  | _ => .mapping none ⟨mappingTag, none⟩ .mapping none (set []) none {} []

end ElementBundle.Data.Yaml
