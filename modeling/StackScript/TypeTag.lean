/-!
# Type tags

Every value of the language carries one of four tags. A script can declare variables of two of
them; the other two belong to values that only a host or a function declaration can make.
-/

namespace StackScript

/-- The tag of a value, and the declared type of a variable. -/
inductive TypeTag where
  | int
  | string
  | builtin
  | function
deriving DecidableEq

namespace TypeTag

/-- The word a script or a message uses for the tag. -/
def name : TypeTag → String
  | .int => "int"
  | .string => "string"
  | .builtin => "builtin"
  | .function => "function"

/-- The tag that a word names. -/
def ofName? (word : String) : Option TypeTag :=
  if word = "int" then some .int
  else if word = "string" then some .string
  else if word = "builtin" then some .builtin
  else if word = "function" then some .function
  else none

/-- Only integers and strings may be written as the type of a declaration in a script. -/
def isDeclarable : TypeTag → Bool
  | .int | .string => true
  | .builtin | .function => false

/-- Reading a tag's word gives the tag back. -/
theorem ofName?_name (tag : TypeTag) : ofName? tag.name = some tag := by
  cases tag <;> decide

/-- Only a tag's own word is read as the tag. -/
theorem eq_name_of_ofName? {word : String} {tag : TypeTag} (h : ofName? word = some tag) :
    word = tag.name := by
  unfold ofName? at h
  repeat' split at h
  all_goals cases h
  all_goals assumption

end TypeTag

end StackScript
