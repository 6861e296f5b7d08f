import ElementBundle.Data.Yaml.Token
import ElementBundle.Text.Utf8

/-!
# Names, tags and directives

An anchor names a node and an alias stands for the node of that name. A tag gives the type of a node.
Directives stand in front of a document: the version of YAML, and handles that stand for the fronts
of tags.
-/

namespace ElementBundle.Data.Yaml

open ElementBundle.Text

def Cursor.name (c : Cursor) : Except Flaw (List Char × Cursor) :=
  let (name, c) := c.takeWhile fun d => !isEndOrBlank d && !isBreak d && !isFlowMark d
  if name.isEmpty then .error .malformed else .ok (name, c)

/-- Whether a character is a letter or a digit of basic Latin, a hyphen or an underscore. -/
def isHandleChar (c : Char) : Bool :=
  c.isAlphanum || c == '-' || c == '_'

/-- Reads a handle: an exclamation mark, alone or with a word and another mark. -/
def Cursor.handle (c : Cursor) : Except Flaw (List Char × Cursor) :=
  if c.peek != '!' then .error .malformed
  else if c.peek 1 == ' ' then .ok (['!'], c.forward 1)
  else
    let word := (c.rest.drop 1).takeWhile isHandleChar
    if c.peek (word.length + 1) == '!' then
      .ok ('!' :: word ++ ['!'], c.forward (word.length + 2))
    else .error .malformed

def isTagChar (version : Version) (c : Char) : Bool :=
  c.isAlphanum || "-;/?:@&=+$,_.!~*'()[]%".toList.contains c || (c == '#' && version.isLater)

def tagEscapes : Nat → Cursor → Except Flaw (List UInt8 × Cursor)
  | 0, _ => .error .malformed
  | fuel + 1, c =>
    if c.peek != '%' then .ok ([], c)
    else
      match hexValue? (c.peek 1), hexValue? (c.peek 2) with
      | some a, some b => do
        let (more, c) ← tagEscapes fuel (c.forward 3)
        return ((a * 16 + b).toUInt8 :: more, c)
      | _, _ => .error .malformed

/-- Reads the text of a tag. Escapes are replaced by the characters that they stand for, unless the
text is kept as it is written. -/
def tagText (keeps : Bool) (version : Version) : Nat → Cursor → Except Flaw (List Char × Cursor)
  | 0, _ => .error .malformed
  | fuel + 1, c =>
    if c.peek == '%' then do
      let (bytes, after) ← tagEscapes (c.rest.length + 1) c
      let text ← if keeps then .ok (c.rest.take (after.index - c.index))
        else
          match decodeUtf8 bytes with
          | .ok text => .ok text
          | .error _ => .error .malformed
      let (more, c) ← tagText keeps version fuel after
      return (text ++ more, c)
    else if isTagChar version c.peek then do
      let (more, after) ← tagText keeps version fuel (c.forward 1)
      return (c.peek :: more, after)
    else .ok ([], c)

def Cursor.tagText (c : Cursor) (keeps : Bool) (version : Version) :
    Except Flaw (List Char × Cursor) := do
  let (text, c) ← Yaml.tagText keeps version (c.rest.length + 1) c
  if text.isEmpty then .error .malformed else .ok (text, c)

def Cursor.tag (c : Cursor) (keeps : Bool) (version : Version) : Except Flaw (Tag × Cursor) := do
  let next := c.peek 1
  let (tag, c) ←
    if next == '<' then do
      let (suffix, c) ← (c.forward 2).tagText keeps version
      if c.peek == '>' then .ok ((⟨none, suffix⟩ : Tag), c.forward 1) else .error .malformed
    else if isEndOrSpace next || next == '\t' then .ok (⟨none, ['!']⟩, c.forward 1)
    else do
      let word := (c.rest.drop 1).takeWhile fun d => !isEndOrSpace d
      let (handle, c) ← if word.contains '!' then c.handle else .ok (['!'], c.forward 1)
      let (suffix, c) ← c.tagText keeps version
      .ok (⟨some handle, suffix⟩, c)
  if isEndOrSpace c.peek then .ok (tag, c) else .error .malformed

def isDirectiveChar (c : Char) : Bool :=
  isHandleChar c || c == ':' || c == '.'

def Cursor.number (c : Cursor) : Except Flaw (Nat × Cursor) :=
  let (digits, c) := c.takeWhile Char.isDigit
  if digits.isEmpty then .error .malformed
  else .ok (digits.foldl (fun n d => n * 10 + (d.toNat - 48)) 0, c)

def Cursor.directiveValue (c : Cursor) (keeps : Bool) (version : Version) (name : List Char) :
    Except Flaw (Kind × Cursor) := do
  if name = "YAML".toList then
    let (major, c) ← (c.dropWhile (· == ' ')).number
    if c.peek != '.' then .error .malformed
    else
      let (minor, c) ← (c.forward 1).number
      if isEndOrSpace c.peek then .ok (.version ⟨major, minor⟩, c) else .error .malformed
  else if name = "TAG".toList then
    let (handle, c) ← (c.dropWhile (· == ' ')).handle
    if c.peek != ' ' then .error .malformed
    else
      let (target, c) ← (c.dropWhile (· == ' ')).tagText keeps version
      if isEndOrSpace c.peek then .ok (.handle handle target, c) else .error .malformed
  else .ok (.directive, c.dropWhile fun d => !isEnd d)

def Cursor.directive (c : Cursor) (keeps : Bool) (version : Version) :
    Except Flaw (Kind × Cursor) := do
  let (name, c) := (c.forward 1).takeWhile isDirectiveChar
  if name.isEmpty || !isEndOrSpace c.peek then .error .malformed
  else
    let (kind, c) ← c.directiveValue keeps version name
    let c := c.dropWhile (· == ' ')
    let c := if c.peek == '#' then c.dropWhile fun d => !isEnd d else c
    if isEnd c.peek then .ok (kind, c.lineBreak.2) else .error .malformed

end ElementBundle.Data.Yaml
