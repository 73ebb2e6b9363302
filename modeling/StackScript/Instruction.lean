import StackScript.TypeTag
import StackScript.Text.Outline
import StackScript.Text.Quoted

/-!
# Instructions

A program is a flat sequence of instructions for a stack machine. Globals are addressed by name,
locals by slot and type, and the only jump takes an absolute position.
-/

namespace StackScript

open Text (Outline quoted)

/-- A constant that an instruction can push. -/
inductive Literal where
  | int (value : Int64)
  | str (text : String)
deriving DecidableEq

/-- An operation on the two topmost integers of the stack. -/
inductive Operator where
  | add
  | sub
  | mul
  | div
  | eq
  | gt
  | lt
deriving DecidableEq

/-- One step of the machine. -/
inductive Instruction where
  /-- Pushes a constant. -/
  | push (literal : Literal)
  /-- Pushes the value of a global. -/
  | loadGlobal (name : String)
  /-- Pops a value into a global. -/
  | assignGlobal (name : String)
  /-- Pushes a local of the given type. -/
  | loadLocal (slot : Nat) (type : TypeTag)
  /-- Pops a value into a local of the given type. -/
  | setLocal (slot : Nat) (type : TypeTag)
  /-- Replaces two integers by the result of an operation. -/
  | binary (operator : Operator)
  /-- Calls the value below the given number of arguments. -/
  | invoke (arguments : Nat)
  /-- Leaves the running function. -/
  | ret
  /-- Pops an integer and jumps if it is zero. -/
  | jumpIfZero (target : Nat)
  /-- Drops the topmost value. -/
  | pop
deriving DecidableEq

namespace Literal

/-- The literal as a listing shows it. -/
def render : Literal → String
  | .int value => toString value.toInt
  | .str text => quoted text

/-- The literal as a dump shows it. -/
def outline : Literal → Outline
  | .int value => .tuple "Int" [.leaf (toString value.toInt)]
  | .str text => .tuple "Str" [.leaf (quoted text)]

end Literal

/-- The word for a tag in a dump. -/
def TypeTag.outlineWord : TypeTag → String
  | .int => "Int"
  | .string => "Str"
  | .builtin => "Builtin"
  | .function => "Function"

/-- The tag as a dump shows it. -/
def TypeTag.outline (tag : TypeTag) : Outline :=
  .leaf tag.outlineWord

namespace Operator

/-- The operator that a symbol of the language stands for. -/
def ofSymbol? (symbol : String) : Option Operator :=
  if symbol = "+" then some .add
  else if symbol = "-" then some .sub
  else if symbol = "*" then some .mul
  else if symbol = "/" then some .div
  else if symbol = "==" then some .eq
  else if symbol = ">" then some .gt
  else if symbol = "<" then some .lt
  else none

/-- The word for the operation in a listing. -/
def mnemonic : Operator → String
  | .add => "ADD"
  | .sub => "SUB"
  | .mul => "MUL"
  | .div => "DIV"
  | .eq => "EQ"
  | .gt => "GT"
  | .lt => "LT"

/-- The word for the operation in a dump. -/
def outlineWord : Operator → String
  | .add => "Add"
  | .sub => "Sub"
  | .mul => "Mul"
  | .div => "Div"
  | .eq => "Eq"
  | .gt => "Gt"
  | .lt => "Lt"

end Operator

namespace Instruction

/-- The word that opens the instruction's line in a listing. -/
def mnemonic : Instruction → String
  | .push _ => "PUSH"
  | .loadGlobal _ => "LOAD_GLOBAL"
  | .assignGlobal _ => "ASSIGN_GLOBAL"
  | .loadLocal _ _ => "LOAD_LOCAL"
  | .setLocal _ _ => "SET_LOCAL"
  | .binary operator => operator.mnemonic
  | .invoke _ => "INVOKE"
  | .ret => "RETURN"
  | .jumpIfZero _ => "JUMP_IF_ZERO"
  | .pop => "POP"

/-- The instruction as a listing shows it: its mnemonic, then its operands. -/
def render (instruction : Instruction) : String :=
  match instruction with
  | .push literal => instruction.mnemonic ++ " " ++ literal.render
  | .loadGlobal name | .assignGlobal name => instruction.mnemonic ++ " " ++ name
  | .loadLocal slot type | .setLocal slot type =>
      instruction.mnemonic ++ " " ++ toString slot ++ " " ++ type.name
  | .invoke n | .jumpIfZero n => instruction.mnemonic ++ " " ++ toString n
  | .binary _ | .ret | .pop => instruction.mnemonic

/-- The word for the instruction in a dump. -/
def outlineWord : Instruction → String
  | .push _ => "Push"
  | .loadGlobal _ => "LoadGlobal"
  | .assignGlobal _ => "AssignGlobal"
  | .loadLocal _ _ => "LoadLocal"
  | .setLocal _ _ => "SetLocal"
  | .binary operator => operator.outlineWord
  | .invoke _ => "Invoke"
  | .ret => "Return"
  | .jumpIfZero _ => "JumpIfZero"
  | .pop => "Pop"

/-- The instruction as a dump shows it. -/
def outline (instruction : Instruction) : Outline :=
  match instruction with
  | .push literal => .tuple instruction.outlineWord [literal.outline]
  | .loadGlobal name | .assignGlobal name =>
      .tuple instruction.outlineWord [.leaf (quoted name)]
  | .loadLocal slot type | .setLocal slot type =>
      .record instruction.outlineWord [("slot", .leaf (toString slot)), ("ty", type.outline)]
  | .invoke n | .jumpIfZero n => .tuple instruction.outlineWord [.leaf (toString n)]
  | .binary _ | .ret | .pop => .leaf instruction.outlineWord

/-- Whether the machine may go on anywhere but at the next instruction. -/
def redirects : Instruction → Bool
  | .invoke _ | .ret | .jumpIfZero _ => true
  | _ => false

/-- Where the instruction may jump. -/
def jumpTarget? : Instruction → Option Nat
  | .jumpIfZero target => some target
  | _ => none

end Instruction

end StackScript
