import StackScript.Program
import StackScript.Text.Column

/-!
# Listings

A listing has one numbered line for each instruction. A comment line stands in front of the first
instruction of each function and of the top-level code.
-/

namespace StackScript.Program

variable {ν : Type}

/-- The comment that opens the top-level code. -/
def mainHeading : String :=
  "; main\n"

/-- The comment that opens a function. -/
def functionHeading (func : Func) : String :=
  "; func " ++ func.name ++ "\n"

/-- The numbered line of an instruction. -/
def listingLine (index : Nat) (instruction : Instruction) : String :=
  Text.position index ++ " " ++ instruction.render ++ "\n"

/-- The comments in front of the instruction at an index. -/
def headings (program : Program ν) (index : Nat) : String :=
  String.join ((program.functions.filter (·.entry = index)).map functionHeading) ++
    (if index = program.entry then mainHeading else "")

/-- The text of a program's code. Top-level code that is empty is still announced. -/
def listing (program : Program ν) : String :=
  String.join (program.code.toList.zipIdx.map fun line =>
    program.headings line.2 ++ listingLine line.2 line.1) ++
    (if program.code.size ≤ program.entry then mainHeading else "")

end StackScript.Program
