import StackScript.Program
import StackScript.Token.Scanner
import StackScript.Tree.Parser

/-!
# Building programs

A builder collects globals and the code of functions; compiling the top-level code turns it into a
program. An operation that fails gives no new builder, so the caller still has the old one.
-/

namespace StackScript

variable {ν : Type}

/-- A computation that may fail to compile and reports events either way. -/
abbrev Build := EStateM CompileError (Array Event)

namespace Build

/-- Reports one event. -/
def report (event : Event) : Build Unit :=
  modify (·.push event)

/-- Runs a parser on a stream of items and gives its result with the state it ends in. -/
def parse {α : Type} (items : List Item) (locals : Option SlotTable) (parser : Parser α) :
    Build (α × Parser.State) := fun events =>
  match parser { rest := items, locals, events } with
  | .ok result state => .ok (result, state) state.events
  | .error error state => .error error state.events

/-- Reads a stream of items as a block that is placed at `start`. -/
def block (items : List Item) (locals : Option SlotTable) (start : Nat) :
    Build (Block × Option SlotTable) := do
  let (block, state) ← parse items locals (Parser.wholeBlock items.length start)
  return (block, state.locals)

/-- Reads a stream of items as a block and puts its code after the code there is. -/
def append (code : Array Instruction) (items : List Item) (locals : Option SlotTable) :
    Build (Array Instruction × Option SlotTable) := do
  let (block, locals) ← block items locals code.size
  return (code ++ (Block.code code.size block).toArray, locals)

end Build

/-- The head of a function: its parameters, then further locals. -/
structure Signature where
  name : String
  params : List Variable := []
  locals : List Variable := []
  returns : Option TypeTag := none

namespace Signature

/-- Adds variables to a table of the function's locals. -/
def extend (signature : Signature) :
    SlotTable → List Variable → Except CompileError SlotTable
  | table, [] => .ok table
  | table, first :: rest =>
      match table.declare first with
      | .error duplicate => .error (.duplicateParameter signature.name duplicate.name)
      | .ok (_, table) => signature.extend table rest

/-- The table of parameters and locals. -/
def table (signature : Signature) : Except CompileError SlotTable :=
  signature.extend {} (signature.params ++ signature.locals)

end Signature

/-- The parts of a program collected so far. -/
structure Builder (ν : Type) where
  code : Array Instruction := #[]
  globals : SlotTable := {}
  memory : Array (Value ν) := #[]

namespace Builder

/-- Declares a global that holds a value at the start, and gives its slot. -/
def declare (builder : Builder ν) (name : String) (type : TypeTag) (value : Value ν) :
    Except CompileError (Nat × Builder ν) :=
  match builder.globals.declare ⟨name, type⟩ with
  | .error duplicate => .error (.duplicateGlobal duplicate.name)
  | .ok (slot, globals) => .ok (slot, { builder with globals, memory := builder.memory.push value })

/-- Declares a global variable. -/
def global (builder : Builder ν) (name : String) (type : TypeTag) :
    Except CompileError (Nat × Builder ν) :=
  builder.declare name type (Value.initial type)

/-- Declares a global that holds a builtin. -/
def builtin (builder : Builder ν) (native : Builtin ν) : Except CompileError (Nat × Builder ν) :=
  builder.declare native.name .builtin (.builtin native)

/-- Declares a function whose body is compiled later. -/
def reserve (builder : Builder ν) (name : String) : Except CompileError (Nat × Builder ν) :=
  builder.declare name .function (Value.initial .function)

/-- Declares builtins one after the other. -/
def addBuiltins : Builder ν → List (Builtin ν) → Except CompileError (Builder ν)
  | builder, [] => .ok builder
  | builder, first :: rest =>
      match builder.builtin first with
      | .error error => .error error
      | .ok (_, builder) => builder.addBuiltins rest

/-- A builder that holds nothing but builtins. -/
def ofBuiltins (natives : List (Builtin ν)) : Except CompileError (Builder ν) :=
  addBuiltins {} natives

/-- The slot that a function of the given name fills, or `none` if it is not declared yet. A slot
is free while it is reserved for a function and holds none. -/
def functionSlot? (builder : Builder ν) (name : String) : Except CompileError (Option Nat) :=
  match builder.globals.find? name with
  | none => .ok none
  | some (slot, found) =>
      let filled := ((builder.memory[slot]?).bind Value.function?).isSome
      if found.type = .function ∧ ¬ filled then .ok (some slot)
      else .error (.duplicateGlobal name)

/-- Puts a compiled function into its slot, or declares it. -/
def store (builder : Builder ν) (slot? : Option Nat) (func : Func) :
    Except CompileError (Builder ν) :=
  match slot? with
  | some slot =>
      .ok { builder with memory := builder.memory.setIfInBounds slot (.function func) }
  | none => (builder.declare func.name .function (.function func)).map (·.2)

/-- Compiles a function whose body is a stream of items. Its code ends with a return. -/
def functionOfItems (builder : Builder ν) (signature : Signature) (body : List Item) :
    Build (Func × Builder ν) := do
  let slot? ← builder.functionSlot? signature.name
  let table ← signature.table
  let entry := builder.code.size
  let (code, locals) ← Build.append builder.code body (some table)
  let code := code.push .ret
  let func : Func :=
    { name := signature.name
      params := signature.params.map (·.type)
      returns := signature.returns
      entry
      locals := locals.getD {} }
  Build.report (.functionCompiled func.name entry code.size func.locals.size)
  let builder ← Builder.store { builder with code } slot? func
  return (func, builder)

/-- Compiles a function whose body is a text. -/
def function (builder : Builder ν) (signature : Signature) (body : String) :
    Build (Func × Builder ν) :=
  builder.functionOfItems signature (Token.scan body)

/-- Compiles the top-level code from a stream of items and finishes the program. -/
def buildOfItems (builder : Builder ν) (main : List Item) : Build (Program ν) := do
  let entry := builder.code.size
  let (code, _) ← Build.append builder.code main none
  Build.report (.mainCompiled entry code.size)
  return { code, globals := builder.globals, memory := builder.memory, entry }

/-- Compiles the top-level code from a text and finishes the program. -/
def build (builder : Builder ν) (main : String) : Build (Program ν) :=
  builder.buildOfItems (Token.scan main)

end Builder

end StackScript
