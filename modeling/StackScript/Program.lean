import StackScript.Value

/-!
# Programs

A program is one sequence of instructions, the bodies of its functions first and its top-level
code from `entry` to the end, with a table of globals and what they hold at the start.
-/

namespace StackScript

variable {ν : Type}

/-- Code ready to run. -/
structure Program (ν : Type) where
  code : Array Instruction
  globals : SlotTable := {}
  memory : Array (Value ν) := #[]
  entry : Nat := 0

namespace Program

/-- What a declared global holds at the start, if it has a memory cell. -/
def initialValue? (program : Program ν) (name : String) : Option (Value ν) :=
  (program.globals.slot? name).bind (program.memory[·]?)

/-- The functions of a program in slot order. -/
def functions (program : Program ν) : List Func :=
  program.memory.toList.filterMap Value.function?

/-- The top-level code. -/
def mainCode (program : Program ν) : List Instruction :=
  program.code.toList.drop program.entry

/-- Whether two programs have the same code, globals, memory and entry. -/
def same (left right : Program ν) : Bool :=
  left.code == right.code && left.globals == right.globals &&
    left.memory == right.memory && left.entry == right.entry

instance : BEq (Program ν) := ⟨same⟩

end Program

end StackScript
