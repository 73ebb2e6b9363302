import StackScript.TypeTag

/-!
# Slot tables

A slot table names the cells of a frame or of global memory. Variables keep the order in which
they were declared, and the slot of a variable is its position in that order.
-/

namespace StackScript

/-- A declared name with its type. -/
structure Variable where
  name : String
  type : TypeTag
deriving DecidableEq

/-- The declared variables in slot order. -/
structure SlotTable where
  entries : List Variable := []
deriving DecidableEq

/-- The name of a declaration that a table already holds. -/
structure DuplicateName where
  name : String
deriving DecidableEq

/-- The text that reports a repeated declaration. -/
def DuplicateName.message (duplicate : DuplicateName) : String :=
  s!"'{duplicate.name}' is already declared"

namespace SlotTable

/-- The number of declared variables, which is also the next free slot. -/
def size (table : SlotTable) : Nat :=
  table.entries.length

/-- The slot of a declared name. -/
def slot? (table : SlotTable) (name : String) : Option Nat :=
  table.entries.findIdx? (·.name = name)

/-- The slot and the variable of a declared name. -/
def find? (table : SlotTable) (name : String) : Option (Nat × Variable) :=
  match table.slot? name with
  | none => none
  | some slot => (table.entries[slot]?).map fun found => (slot, found)

/-- Gives a new name the next free slot, and refuses a name that has one. -/
def declare (table : SlotTable) (new : Variable) : Except DuplicateName (Nat × SlotTable) :=
  match table.slot? new.name with
  | some _ => .error ⟨new.name⟩
  | none => .ok (table.size, ⟨table.entries ++ [new]⟩)

end SlotTable

end StackScript
