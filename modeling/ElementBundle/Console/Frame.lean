import ElementBundle.Text.Wrap

/-!
# Frames

Lines of text inside a frame with round corners, one blank away from it at both sides. A title may
stand in the middle of the upper edge.
-/

namespace ElementBundle.Console

open ElementBundle.Text

def frameTop (width : Nat) : Option (List Char) → List Char
  | none => '╭' :: List.replicate (width - 2) '─' ++ ['╮']
  | some title =>
    let title := crop (width - 4) (' ' :: title ++ [' '])
    let rest := width - 4 - cells title
    "╭─".toList ++ List.replicate (rest / 2) '─' ++ title ++ List.replicate (rest - rest / 2) '─' ++
      "─╮".toList

def frameLine (width : Nat) (line : List Char) : List Char :=
  "│ ".toList ++ padEnd (width - 4) line ++ " │".toList

def frameBottom (width : Nat) : List Char :=
  '╰' :: List.replicate (width - 2) '─' ++ ['╯']

def frame (width : Nat) (title : Option (List Char)) (lines : List (List Char)) :
    List (List Char) :=
  frameTop width title :: lines.map (frameLine width) ++ [frameBottom width]

def framedText (width : Nat) (text : List Char) : List (List Char) :=
  frame width none (wrap (width - 4) text)

def fittedFrame (line : List Char) : List (List Char) :=
  frame (cells line + 4) none [line]

end ElementBundle.Console
