import StackScript.Instruction
import StackScript.SlotTable

/-!
# Values

The machine computes with integers, strings, builtins and functions. A builtin is a name together
with a native action; which actions there are is up to the host, so values are parametric in the
type `ν` of natives.
-/

namespace StackScript

open Text (Outline quoted)

/-- A compiled function: where its code starts and what its frame looks like. -/
structure Func where
  name : String
  params : List TypeTag
  returns : Option TypeTag
  entry : Nat
  locals : SlotTable
deriving DecidableEq

/-- A native action under the name it is known by. -/
structure Builtin (ν : Type) where
  name : String
  native : ν

/-- A value of the language. -/
inductive Value (ν : Type) where
  | int (value : Int64)
  | str (text : String)
  | builtin (native : Builtin ν)
  | function (func : Func)

variable {ν : Type}

namespace Value

/-- The tag of a value. -/
def tag : Value ν → TypeTag
  | .int _ => .int
  | .str _ => .string
  | .builtin _ => .builtin
  | .function _ => .function

/-- What a variable holds before anything is assigned to it. A variable of a callable type starts
as the integer zero. -/
def initial : TypeTag → Value ν
  | .string => .str ""
  | .int | .builtin | .function => .int 0

/-- No variable starts as a function. -/
theorem initial_ne_function (type : TypeTag) (func : Func) :
    (initial type : Value ν) ≠ .function func := by
  cases type <;> simp [initial]

/-- The value of a literal. -/
def ofLiteral : Literal → Value ν
  | .int value => .int value
  | .str text => .str text

/-- The integer that a value is. -/
def int? : Value ν → Option Int64
  | .int value => some value
  | _ => none

/-- The function that a value is. -/
def function? : Value ν → Option Func
  | .function func => some func
  | _ => none

/-- The text that printing a value writes. -/
def render : Value ν → String
  | .int value => toString value.toInt
  | .str text => text
  | .builtin native => s!"<builtin {native.name}>"
  | .function func => s!"<function {func.name}>"

/-- Whether two values are the same. Builtins are told apart by name only. -/
def same : Value ν → Value ν → Bool
  | .int left, .int right => left = right
  | .str left, .str right => left = right
  | .builtin left, .builtin right => left.name = right.name
  | .function left, .function right => left = right
  | _, _ => false

instance : BEq (Value ν) := ⟨same⟩

end Value

namespace Func

/-- The number of arguments a call takes. -/
def arity (func : Func) : Nat :=
  func.params.length

/-- What the locals after the parameters hold when a call starts. -/
def extraLocals (func : Func) : List (Value ν) :=
  (func.locals.entries.drop func.arity).map fun extra => Value.initial extra.type

end Func

/-- The table as a dump shows it: its variables, then the slot of each name. -/
def SlotTable.outline (table : SlotTable) : Outline :=
  let numbered := table.entries.zipIdx
  .record "SlotTable"
    [("vars", .list (numbered.map fun entry =>
        .record "VariableInfo"
          [("name", .leaf (quoted entry.1.name)),
           ("ty", entry.1.type.outline),
           ("slot", .leaf (toString entry.2))])),
     ("by_name", .dictionary (numbered.map fun entry =>
        (quoted entry.1.name, .leaf (toString entry.2))))]

/-- The function as a dump shows it. -/
def Func.outline (func : Func) : Outline :=
  .record "FunctionDescriptor"
    [("name", .leaf (quoted func.name)),
     ("params", .list (func.params.map TypeTag.outline)),
     ("return_type", match func.returns with
        | none => .leaf "None"
        | some type => .tuple "Some" [type.outline]),
     ("entry", .leaf (toString func.entry)),
     ("locals", .record "LocalTable" [("table", func.locals.outline)])]

/-- The value as a dump shows it. -/
def Value.outline : Value ν → Outline
  | .int value => (Literal.int value).outline
  | .str text => (Literal.str text).outline
  | .builtin native =>
      .tuple "Builtin" [.record "Builtin" [("name", .leaf (quoted native.name))]]
  | .function func => .tuple "Function" [func.outline]

end StackScript
