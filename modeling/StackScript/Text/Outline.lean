/-!
# Indented outlines

A dump shows a value as an outline: a leaf is a word, and a group has one member on each line,
four columns further in, each followed by a comma. A group without members stays on one line.
-/

namespace StackScript.Text

/-- The shape of a dumped value. -/
inductive Outline where
  /-- Text that stands on one line. -/
  | leaf (text : String)
  /-- A member with the label in front of it. -/
  | labelled (label : String) (member : Outline)
  /-- Members between an opening and a closing text. -/
  | group (opening closing : String) (members : List Outline)

namespace Outline

/-- A word followed by members in round brackets. -/
def tuple (head : String) (members : List Outline) : Outline :=
  .group (head ++ "(") ")" members

/-- A word followed by labelled members in braces. -/
def record (head : String) (fields : List (String × Outline)) : Outline :=
  .group (head ++ " \x7b") "\x7d" (fields.map fun field => .labelled (field.1 ++ ": ") field.2)

/-- Members in square brackets. -/
def list (members : List Outline) : Outline :=
  .group "[" "]" members

/-- Labelled members in braces, with no word in front. -/
def dictionary (entries : List (String × Outline)) : Outline :=
  .group "\x7b" "\x7d" (entries.map fun entry => .labelled (entry.1 ++ ": ") entry.2)

/-- The blanks in front of a line at a depth of indentation. -/
def margin (depth : Nat) : String :=
  String.ofList (List.replicate (4 * depth) ' ')

mutual

/-- The text of an outline whose first line is already indented. -/
def renderAt (depth : Nat) : Outline → String
  | .leaf text => text
  | .labelled label member => label ++ member.renderAt depth
  | .group opening closing [] => opening ++ closing
  | .group opening closing (member :: members) =>
      opening ++ "\n" ++ renderLines (depth + 1) (member :: members) ++ margin depth ++ closing

/-- The members of a group, each on lines of its own. -/
def renderLines (depth : Nat) : List Outline → String
  | [] => ""
  | member :: members =>
      margin depth ++ member.renderAt depth ++ ",\n" ++ renderLines depth members

end

/-- The text of an outline that starts at the margin. -/
def render (outline : Outline) : String :=
  outline.renderAt 0

end Outline

end StackScript.Text
