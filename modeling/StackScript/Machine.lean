import StackScript.Machine.Fault
import StackScript.Program

/-!
# The machine

The state of a run, and what each instruction does to it. An instruction that fails keeps what it
has done to the state up to that point: operands it has popped are gone.
-/

namespace StackScript

/-- How many values the stack may hold. -/
def stackLimit : Nat := 4096

/-- How many calls may be active. -/
def callLimit : Nat := 1024

/-- An active call. -/
structure Frame where
  /-- Where the caller goes on. -/
  resume : Nat
  /-- Where the locals start on the stack. -/
  base : Nat
deriving DecidableEq

/-- The state of a run. -/
structure Machine (ν : Type) where
  pc : Nat
  /-- The operands and the locals of active calls, the topmost last. -/
  stack : Array (Value ν) := #[]
  /-- The active calls, the innermost first. -/
  frames : List Frame := []
  memory : Array (Value ν)
  output : Sink := {}

/-- A computation on the machine that may fail and keeps the state when it does. -/
abbrev Action (ν : Type) := EStateM Fault (Machine ν)

/-- Where control goes after an instruction. -/
inductive Signal where
  | next
  | jump (target : Nat)
  | halt (name : String)
deriving DecidableEq

variable {ν : Type}

/-- The result of an operation. Arithmetic is modulo 2^64, division goes toward zero, and a
comparison gives one or zero. -/
def Operator.apply (operator : Operator) (left right : Int64) : Except Fault Int64 :=
  match operator with
  | .add => .ok (left + right)
  | .sub => .ok (left - right)
  | .mul => .ok (left * right)
  | .div => if right = 0 then .error .divisionByZero else .ok (left / right)
  | .eq => .ok (if left = right then 1 else 0)
  | .gt => .ok (if right < left then 1 else 0)
  | .lt => .ok (if left < right then 1 else 0)

namespace Machine

/-- A machine that has done nothing yet and writes to the given sink. -/
def start (program : Program ν) (output : Sink) : Machine ν :=
  { pc := program.entry, memory := program.memory, output }

/-- Pushes a value. -/
def push (value : Value ν) : Action ν Unit := fun machine =>
  if machine.stack.size < stackLimit then
    .ok () { machine with stack := machine.stack.push value }
  else .error .stackOverflow machine

/-- Pops a value. -/
def pop : Action ν (Value ν) := fun machine =>
  match machine.stack.back? with
  | some value => .ok value { machine with stack := machine.stack.pop }
  | none => .error .stackUnderflow machine

/-- Fails unless a value has the expected tag. -/
def checkTag (expected : TypeTag) (value : Value ν) : Action ν Unit :=
  if value.tag = expected then pure () else throw (.typeMismatch expected value.tag)

/-- Pops an integer. A value of another type is gone as well. -/
def popInt : Action ν Int64 := do
  let value ← pop
  match value with
  | .int n => return n
  | other => throw (.typeMismatch .int other.tag)

/-- The memory cell of a global. -/
def globalSlot (program : Program ν) (name : String) : Action ν Nat := fun machine =>
  match program.globals.slot? name with
  | some slot =>
      if slot < machine.memory.size then .ok slot machine
      else .error (.unresolvedName name) machine
  | none => .error (.unresolvedName name) machine

/-- The value of a global. -/
def global? (program : Program ν) (machine : Machine ν) (name : String) : Option (Value ν) :=
  (program.globals.slot? name).bind (machine.memory[·]?)

/-- Pushes the value of a global. -/
def loadGlobal (program : Program ν) (name : String) : Action ν Unit := do
  match (← get).global? program name with
  | some value => push value
  | none => throw (.unresolvedName name)

/-- Pops a value into a global. -/
def assignGlobal (program : Program ν) (name : String) : Action ν Unit := do
  let value ← pop
  let slot ← globalSlot program name
  modify fun machine => { machine with memory := machine.memory.setIfInBounds slot value }

/-- The place of a local on the stack, and what it holds. -/
def localCell (slot : Nat) : Action ν (Nat × Value ν) := fun machine =>
  match machine.frames with
  | [] => .error .noActiveFrame machine
  | frame :: _ =>
      match machine.stack[frame.base + slot]? with
      | some value => .ok (frame.base + slot, value) machine
      | none => .error (.localOutOfRange slot) machine

/-- Pushes a local. -/
def loadLocal (slot : Nat) (type : TypeTag) : Action ν Unit := do
  let (_, value) ← localCell slot
  checkTag type value
  push value

/-- Pops a value into a local. The old value and the new one need the declared tag. -/
def setLocal (slot : Nat) (type : TypeTag) : Action ν Unit := do
  let value ← pop
  let (index, old) ← localCell slot
  checkTag type old
  checkTag type value
  modify fun machine => { machine with stack := machine.stack.setIfInBounds index value }

/-- Replaces two integers by the result of an operation on them. -/
def binary (operator : Operator) : Action ν Unit := do
  let right ← popInt
  let left ← popInt
  match operator.apply left right with
  | .ok result => push (.int result)
  | .error fault => throw fault

/-- The value below the given number of arguments. -/
def callee? (machine : Machine ν) (arguments : Nat) : Option (Value ν) :=
  if arguments < machine.stack.size then machine.stack[machine.stack.size - (arguments + 1)]?
  else none

/-- The values above a place on the stack, the lowest first. -/
def above (machine : Machine ν) (place : Nat) : List (Value ν) :=
  machine.stack.toList.drop (place + 1)

/-- Calls a builtin whose name and arguments stand on the stack from `place` on. They are gone
whether the native succeeds or fails. -/
def callBuiltin [Host ν] (builtin : Builtin ν) (place : Nat) : Action ν Signal := fun machine =>
  let arguments := machine.above place
  let machine := { machine with stack := machine.stack.take place }
  match Host.call builtin.native arguments machine.output with
  | .ok .proceed output => .ok .next { machine with output }
  | .ok .halt output => .ok (.halt builtin.name) { machine with output }
  | .error error output => .error (.native builtin.name error) { machine with output }

/-- The first value whose tag is not the expected one: its index, the expected tag and its tag. -/
def firstMismatch? (index : Nat) : List TypeTag → List (Value ν) → Option (Nat × TypeTag × TypeTag)
  | expected :: types, value :: values =>
      if value.tag = expected then firstMismatch? (index + 1) types values
      else some (index, expected, value.tag)
  | _, _ => none

/-- Fails unless a function can be called with the given values. -/
def checkArguments (func : Func) (arguments : List (Value ν)) : Except Fault Unit :=
  if arguments.length = func.arity then
    match firstMismatch? 0 func.params arguments with
    | none => .ok ()
    | some (index, expected, found) =>
        .error (.argumentTypeMismatch func.name index expected found)
  else .error (.arityMismatch func.name func.arity arguments.length)

/-- Pushes values one after the other. -/
def pushAll : List (Value ν) → Action ν Unit
  | [] => pure ()
  | first :: rest => do
      push first
      pushAll rest

/-- Calls a function that stands on the stack at `place` under its arguments. The arguments move
down into its place and become the first locals; the other locals follow them. -/
def callFunction (func : Func) (place : Nat) : Action ν Signal := do
  let machine ← get
  let arguments := machine.above place
  match checkArguments func arguments with
  | .error fault => throw fault
  | .ok () =>
      if callLimit ≤ machine.frames.length then throw .callDepthExceeded
      set { machine with stack := machine.stack.take place ++ arguments.toArray }
      pushAll func.extraLocals
      modify fun machine =>
        { machine with frames := ⟨machine.pc + 1, place⟩ :: machine.frames }
      return .jump func.entry

/-- Calls the value below the given number of arguments. -/
def invoke [Host ν] (arguments : Nat) : Action ν Signal := do
  let machine ← get
  let place := machine.stack.size - (arguments + 1)
  match machine.callee? arguments with
  | none => throw .stackUnderflow
  | some (.builtin builtin) => callBuiltin builtin place
  | some (.function func) => callFunction func place
  | some other => throw (.notInvocable other.tag)

/-- Leaves the innermost call: its locals and operands are gone and the caller goes on. -/
def leave : Action ν Signal := fun machine =>
  match machine.frames with
  | [] => .error .returnOutsideFunction machine
  | frame :: frames =>
      .ok (.jump frame.resume)
        { machine with stack := machine.stack.take frame.base, frames }

/-- Performs an instruction and says where control goes. -/
def perform [Host ν] (program : Program ν) : Instruction → Action ν Signal
  | .push literal => do
      push (.ofLiteral literal)
      return .next
  | .loadGlobal name => do
      loadGlobal program name
      return .next
  | .assignGlobal name => do
      assignGlobal program name
      return .next
  | .loadLocal slot type => do
      loadLocal slot type
      return .next
  | .setLocal slot type => do
      setLocal slot type
      return .next
  | .binary operator => do
      binary operator
      return .next
  | .invoke arguments => invoke arguments
  | .ret => leave
  | .jumpIfZero target => do
      if (← popInt) = 0 then return .jump target
      else return .next
  | .pop => do
      let _ ← pop
      return .next

end Machine

end StackScript
