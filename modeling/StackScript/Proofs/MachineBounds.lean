import StackScript.Machine.Run
import StackScript.Proofs.Checked

/-!
# Bounds of the stack and of the memory

Every access of the machine to its stack is by an index, and an index that is out of bounds has no
value there. A machine that checks each access does the same as the machine that does not, from
every state and with every program, so no access is ever out of bounds.
-/

namespace StackScript

variable {ν : Type}

/-- A step of a machine that checks its accesses. -/
abbrev Guarded (ν : Type) := Checked Fault (Machine ν)

namespace Guarded

/-! ## Accesses -/

/-- The value at an index of the stack. -/
def operand (index : Nat) : Guarded ν (Value ν) := fun machine =>
  Checked.demand machine.stack[index]? machine

/-- Replaces the value at an index of the stack. -/
def put (index : Nat) (value : Value ν) : Guarded ν Unit := fun machine =>
  if index < machine.stack.size then
    .ok () { machine with stack := machine.stack.setIfInBounds index value }
  else .error .undefined machine

/-- The values from a place of the stack on. -/
def slice (place : Nat) : Guarded ν (List (Value ν)) := fun machine =>
  if place ≤ machine.stack.size then .ok (machine.stack.toList.drop place) machine
  else .error .undefined machine

/-- Takes the values from a place of the stack on. -/
def split (place : Nat) : Guarded ν (List (Value ν)) := do
  let values ← slice place
  modify fun machine => { machine with stack := machine.stack.take place }
  return values

/-- Removes the value at an index of the stack; those above it move down. -/
def remove (index : Nat) : Guarded ν Unit := fun machine =>
  if index < machine.stack.size then
    .ok () { machine with stack := machine.stack.eraseIdxIfInBounds index }
  else .error .undefined machine

/-- The index of a local. -/
def localIndex (slot : Nat) : Guarded ν Nat := fun machine =>
  match machine.frames with
  | [] => .error (.error .noActiveFrame) machine
  | frame :: _ =>
      if machine.stack.size ≤ frame.base + slot then
        .error (.error (.localOutOfRange slot)) machine
      else .ok (frame.base + slot) machine

/-- The memory cell of a global, and what it holds. -/
def globalCell (globals : IndexedTable) (name : String) : Guarded ν (Nat × Value ν) := do
  match ← globals.find name with
  | none => Checked.fail (.unresolvedName name)
  | some cell =>
      match (← get).memory[cell.slot]? with
      | none => Checked.fail (.unresolvedName name)
      | some value => return (cell.slot, value)

/-! ## Instructions -/

/-- Pushes the value of a global. -/
def loadGlobal (globals : IndexedTable) (name : String) : Guarded ν Unit := do
  let (_, value) ← globalCell globals name
  Checked.ofTotal (Machine.push value)

/-- Pops a value into a global. -/
def assignGlobal (globals : IndexedTable) (name : String) : Guarded ν Unit := do
  let value ← Checked.ofTotal Machine.pop
  let (slot, _) ← globalCell globals name
  modify fun machine => { machine with memory := machine.memory.setIfInBounds slot value }

/-- Pushes a local. -/
def loadLocal (slot : Nat) (type : TypeTag) : Guarded ν Unit := do
  let value ← operand (← localIndex slot)
  Checked.ofTotal (Machine.checkTag type value)
  Checked.ofTotal (Machine.push value)

/-- Pops a value into a local. -/
def setLocal (slot : Nat) (type : TypeTag) : Guarded ν Unit := do
  let value ← Checked.ofTotal Machine.pop
  let index ← localIndex slot
  let old ← operand index
  Checked.ofTotal (Machine.checkTag type old)
  Checked.ofTotal (Machine.checkTag type value)
  put index value

/-- Calls a builtin that stands on the stack at `place` under its arguments. -/
def callBuiltin [Host ν] (builtin : Builtin ν) (place : Nat) : Guarded ν Signal := do
  let arguments ← split (place + 1)
  modify fun machine => { machine with stack := machine.stack.take place }
  let machine ← get
  match Host.call builtin.native arguments machine.output with
  | .ok .proceed output =>
      set { machine with output }
      return .next
  | .ok .halt output =>
      set { machine with output }
      return .halt builtin.name
  | .error error output =>
      set { machine with output }
      Checked.fail (.native builtin.name error)

/-- Calls a function that stands on the stack at `place` under its arguments. -/
def callFunction (func : Func) (place : Nat) : Guarded ν Signal := do
  let arguments ← slice (place + 1)
  Checked.ofExcept (Machine.checkArguments func arguments)
  if callLimit ≤ (← get).frames.length then Checked.fail .callDepthExceeded
  remove place
  Checked.ofTotal (Machine.pushAll func.extraLocals)
  modify fun machine => { machine with frames := ⟨machine.pc + 1, place⟩ :: machine.frames }
  return .jump func.entry

/-- Calls the value below the given number of arguments. -/
def invoke [Host ν] (arguments : Nat) : Guarded ν Signal := do
  let size := (← get).stack.size
  if size < arguments + 1 then Checked.fail .stackUnderflow
  else
    let place := size - (arguments + 1)
    match ← operand place with
    | .builtin builtin => callBuiltin builtin place
    | .function func => callFunction func place
    | other => Checked.fail (.notInvocable other.tag)

/-- Performs an instruction and says where control goes. -/
def perform [Host ν] (program : IndexedProgram ν) : Instruction → Guarded ν Signal
  | .push literal => do
      Checked.ofTotal (Machine.push (.ofLiteral literal))
      return .next
  | .loadGlobal name => do
      loadGlobal program.globals name
      return .next
  | .assignGlobal name => do
      assignGlobal program.globals name
      return .next
  | .loadLocal slot type => do
      loadLocal slot type
      return .next
  | .setLocal slot type => do
      setLocal slot type
      return .next
  | .binary operator => do
      Checked.ofTotal (Machine.binary operator)
      return .next
  | .invoke arguments => invoke arguments
  | .ret => Checked.ofTotal Machine.leave
  | .jumpIfZero target => do
      if (← Checked.ofTotal Machine.popInt) = 0 then return .jump target
      else return .next
  | .pop => do
      let _ ← Checked.ofTotal Machine.pop
      return .next

/-- Performs an instruction and moves the program counter. There is no result if an access is out of
bounds. -/
def advance? [Host ν] (program : IndexedProgram ν) (instruction : Instruction)
    (machine : Machine ν) : Option (Progress ν) :=
  match perform program instruction machine with
  | .ok .next machine => some (.running { machine with pc := machine.pc + 1 })
  | .ok (.jump target) machine => some (.running { machine with pc := target })
  | .ok (.halt name) machine => some (.stopped (.halted name) machine)
  | .error (.error fault) machine => some (.stopped (.failed ⟨machine.pc, fault⟩) machine)
  | .error .undefined _ => none

/-- Performs at most the given number of instructions. -/
def run? [Host ν] (program : IndexedProgram ν) : (fuel : Nat) → Machine ν → Option (Progress ν)
  | 0, machine => some (.running machine)
  | fuel + 1, machine =>
      match program.code[machine.pc]? with
      | none => some (.stopped .completed machine)
      | some instruction =>
          match advance? program instruction machine with
          | some (.running machine) => run? program fuel machine
          | stopped => stopped

/-! ## Every access is within bounds -/

/-- The index of a local is within the stack. -/
theorem localIndex_cases (slot : Nat) (machine : Machine ν) :
    (∃ fault, localIndex slot machine = .error (.error fault) machine ∧
      Machine.localCell slot machine = .error fault machine) ∨
    ∃ index value, machine.stack[index]? = some value ∧
      localIndex slot machine = .ok index machine ∧
      Machine.localCell slot machine = .ok (index, value) machine := by
  unfold localIndex Machine.localCell
  cases hframes : machine.frames with
  | nil => exact .inl ⟨.noActiveFrame, by simp⟩
  | cons frame frames =>
      cases hvalue : machine.stack[frame.base + slot]? with
      | none =>
          refine .inl ⟨.localOutOfRange slot, ?_⟩
          simp [Array.getElem?_eq_none_iff.1 hvalue]
      | some value =>
          obtain ⟨hlt, -⟩ := Array.getElem?_eq_some_iff.1 hvalue
          exact .inr ⟨_, value, hvalue, if_neg (Nat.not_le.2 hlt), by simp [hvalue]⟩

theorem operand_eq {index : Nat} {value : Value ν} {machine : Machine ν}
    (h : machine.stack[index]? = some value) : operand index machine = .ok value machine := by
  simp only [operand, h]
  rfl

theorem loadLocal_eq (slot : Nat) (type : TypeTag) :
    (loadLocal slot type : Guarded ν Unit) = Checked.ofTotal (Machine.loadLocal slot type) := by
  funext machine
  unfold loadLocal Machine.loadLocal
  rcases localIndex_cases slot machine with
    ⟨fault, hindex, hcell⟩ | ⟨index, value, hvalue, hindex, hcell⟩
  · rw [bind_eq_error.2 (.inl hindex), Checked.ofTotal_error (bind_eq_error.2 (.inl hcell))]
  · rw [bind_of_ok hindex, bind_of_ok (operand_eq hvalue), Checked.ofTotal_bind,
      bind_of_ok (Checked.ofTotal_ok hcell), Checked.ofTotal_bind]

theorem setLocal_eq (slot : Nat) (type : TypeTag) :
    (setLocal slot type : Guarded ν Unit) = Checked.ofTotal (Machine.setLocal slot type) := by
  unfold setLocal Machine.setLocal
  rw [Checked.ofTotal_bind]
  congr 1
  funext new machine
  rcases localIndex_cases slot machine with
    ⟨fault, hindex, hcell⟩ | ⟨index, old, hold, hindex, hcell⟩
  · rw [bind_eq_error.2 (.inl hindex), Checked.ofTotal_error (bind_eq_error.2 (.inl hcell))]
  · obtain ⟨hlt, -⟩ := Array.getElem?_eq_some_iff.1 hold
    rw [bind_of_ok hindex, bind_of_ok (operand_eq hold), Checked.ofTotal_bind,
      bind_of_ok (Checked.ofTotal_ok hcell), Checked.ofTotal_bind]
    unfold Machine.checkTag
    by_cases holdTag : old.tag = type
    · by_cases hnewTag : new.tag = type
      · rw [if_pos holdTag, if_pos hnewTag]
        exact if_pos hlt
      · rw [if_pos holdTag, if_neg hnewTag]
        rfl
    · rw [if_neg holdTag]
      rfl

section Globals

variable {program : IndexedProgram ν} (h : program.globals.Consistent) (name : String)
include h

/-- The cell of a global is found in the map, and read only if the memory has it. -/
theorem globalCell_cases (machine : Machine ν) :
    (globalCell program.globals name machine = .error (.error (.unresolvedName name)) machine ∧
      machine.global? program.program name = none ∧
      Machine.globalSlot program.program name machine = .error (.unresolvedName name) machine) ∨
    ∃ slot value, globalCell program.globals name machine = .ok (slot, value) machine ∧
      machine.global? program.program name = some value ∧
      Machine.globalSlot program.program name machine = .ok slot machine := by
  unfold globalCell Machine.global? Machine.globalSlot IndexedProgram.program
  rw [h.find_eq, pure_bind, ← SlotTable.map_find?]
  cases program.globals.table.find? name with
  | none => exact .inl ⟨rfl, rfl, rfl⟩
  | some found =>
      simp only [Option.map_some, get_bind, Option.bind_some]
      cases hvalue : machine.memory[found.1]? with
      | none =>
          have hle := Array.getElem?_eq_none_iff.1 hvalue
          exact .inl ⟨rfl, rfl, if_neg (Nat.not_lt.2 hle)⟩
      | some value =>
          obtain ⟨hlt, -⟩ := Array.getElem?_eq_some_iff.1 hvalue
          exact .inr ⟨found.1, value, rfl, rfl, if_pos hlt⟩

theorem loadGlobal_eq :
    (loadGlobal program.globals name : Guarded ν Unit) =
      Checked.ofTotal (Machine.loadGlobal program.program name) := by
  funext machine
  unfold loadGlobal Machine.loadGlobal
  rw [Checked.ofTotal_get_bind]
  rcases globalCell_cases h name machine with ⟨hcell, hglobal, -⟩ | ⟨slot, value, hcell, hglobal, -⟩
  · rw [bind_eq_error.2 (.inl hcell), hglobal]
    rfl
  · rw [bind_of_ok hcell, hglobal]

theorem assignGlobal_eq :
    (assignGlobal program.globals name : Guarded ν Unit) =
      Checked.ofTotal (Machine.assignGlobal program.program name) := by
  unfold assignGlobal Machine.assignGlobal
  rw [Checked.ofTotal_bind]
  congr 1
  funext new machine
  rcases globalCell_cases h name machine with ⟨hcell, -, hslot⟩ | ⟨slot, value, hcell, -, hslot⟩
  · rw [bind_eq_error.2 (.inl hcell), Checked.ofTotal_error (bind_eq_error.2 (.inl hslot))]
  · rw [bind_of_ok hcell, Checked.ofTotal_bind, bind_of_ok (Checked.ofTotal_ok hslot)]
    rfl

end Globals

/-! The callee is on the stack, so the arguments above it can be cut off and it can be removed. -/

section Calls

variable {place : Nat} {machine : Machine ν} (h : place < machine.stack.size)
include h

theorem slice_eq : slice (place + 1) machine = .ok (machine.above place) machine :=
  if_pos h

theorem callBuiltin_eq [Host ν] (builtin : Builtin ν) :
    callBuiltin builtin place machine =
      Checked.ofTotal (Machine.callBuiltin builtin place) machine := by
  have hsplit : split (place + 1) machine =
      .ok (machine.above place) { machine with stack := machine.stack.take (place + 1) } := by
    unfold split
    rw [bind_of_ok (slice_eq h)]
    rfl
  have htake : (machine.stack.take (place + 1)).take place = machine.stack.take place := by
    simp
  have hcut : (modify fun machine => { machine with stack := machine.stack.take place } :
      Guarded ν Unit) { machine with stack := machine.stack.take (place + 1) } =
      .ok () { machine with stack := machine.stack.take place } := by
    rw [← htake]
    rfl
  unfold callBuiltin
  rw [bind_of_ok hsplit, bind_of_ok hcut, get_bind]
  simp only [Checked.ofTotal, Machine.callBuiltin]
  cases Host.call builtin.native (machine.above place) machine.output with
  | ok flow output => cases flow <;> rfl
  | error error output => rfl

theorem callFunction_eq (func : Func) :
    callFunction func place machine =
      Checked.ofTotal (Machine.callFunction func place) machine := by
  have hstack : machine.stack.eraseIdxIfInBounds place =
      machine.stack.take place ++ (machine.above place).toArray := by
    rw [← Array.toList_inj]
    simp [Machine.above, List.eraseIdx_eq_take_drop_succ]
  have hremove : remove place machine =
      .ok () { machine with
        stack := machine.stack.take place ++ (machine.above place).toArray } := by
    rw [← hstack]
    exact if_pos h
  unfold callFunction Machine.callFunction
  rw [bind_of_ok (slice_eq h), Checked.ofTotal_get_bind]
  cases hcheck : Machine.checkArguments func (machine.above place) with
  | error fault =>
      simp only [hcheck]
      rfl
  | ok result =>
      have hchecked : (Checked.ofExcept (.ok result) : Guarded ν Unit) machine =
          .ok result machine := rfl
      simp only [hcheck]
      rw [bind_of_ok hchecked, get_bind]
      by_cases hdepth : callLimit ≤ machine.frames.length
      · simp only [if_pos hdepth]
        rfl
      · simp only [if_neg hdepth]
        rw [bind_of_ok hremove, Checked.ofTotal_set_bind, Checked.ofTotal_bind]
        rfl

end Calls

theorem invoke_eq [Host ν] (arguments : Nat) :
    (invoke arguments : Guarded ν Signal) = Checked.ofTotal (Machine.invoke arguments) := by
  funext machine
  unfold invoke Machine.invoke
  rw [get_bind, Checked.ofTotal_get_bind]
  unfold Machine.callee?
  by_cases hbound : arguments < machine.stack.size
  · have hplace : machine.stack.size - (arguments + 1) < machine.stack.size := by omega
    have hcallee : machine.stack[machine.stack.size - (arguments + 1)]? =
        some machine.stack[machine.stack.size - (arguments + 1)] :=
      Array.getElem?_eq_getElem hplace
    simp only [if_pos hbound, if_neg (Nat.not_lt.2 hbound), hcallee]
    rw [bind_of_ok (operand_eq hcallee)]
    cases machine.stack[machine.stack.size - (arguments + 1)] with
    | builtin builtin => exact callBuiltin_eq hplace builtin
    | function func => exact callFunction_eq hplace func
    | int value => rfl
    | str text => rfl
  · simp only [if_neg hbound, if_pos (Nat.lt_succ_of_le (Nat.not_lt.1 hbound))]
    rfl

/-- An instruction does the same with the checks and without them. -/
theorem perform_eq [Host ν] {program : IndexedProgram ν} (h : program.globals.Consistent)
    (instruction : Instruction) :
    perform program instruction =
      Checked.ofTotal (Machine.perform program.program instruction) := by
  cases instruction with
  | loadGlobal name =>
      simp only [perform, Machine.perform, Checked.ofTotal_bind, Checked.ofTotal_pure,
        loadGlobal_eq h]
  | assignGlobal name =>
      simp only [perform, Machine.perform, Checked.ofTotal_bind, Checked.ofTotal_pure,
        assignGlobal_eq h]
  | loadLocal slot type =>
      simp only [perform, Machine.perform, Checked.ofTotal_bind, Checked.ofTotal_pure,
        loadLocal_eq]
  | setLocal slot type =>
      simp only [perform, Machine.perform, Checked.ofTotal_bind, Checked.ofTotal_pure,
        setLocal_eq]
  | invoke arguments => exact invoke_eq arguments
  | jumpIfZero target =>
      simp only [perform, Machine.perform, Checked.ofTotal_bind]
      congr 1
      funext value
      split <;> rfl
  | push | binary | ret | pop =>
      simp only [perform, Machine.perform, Checked.ofTotal_bind, Checked.ofTotal_pure]

theorem advance?_eq [Host ν] {program : IndexedProgram ν} (h : program.globals.Consistent)
    (instruction : Instruction) (machine : Machine ν) :
    advance? program instruction machine =
      some (machine.advance program.program instruction) := by
  unfold advance? Machine.advance
  rw [perform_eq h]
  unfold Checked.ofTotal
  cases Machine.perform program.program instruction machine with
  | ok signal machine => cases signal <;> rfl
  | error fault machine => rfl

/-- A machine that checks its accesses runs as the machine that does not. -/
theorem run?_eq [Host ν] {program : IndexedProgram ν} (h : program.globals.Consistent)
    (fuel : Nat) (machine : Machine ν) :
    run? program fuel machine = some (machine.run program.program fuel) := by
  induction fuel generalizing machine with
  | zero => rfl
  | succ fuel ih =>
      unfold run? Machine.run Machine.step
      have hcode : program.program.code = program.code := rfl
      rw [hcode]
      cases program.code[machine.pc]? with
      | none => rfl
      | some instruction =>
          simp only [advance?_eq h]
          cases machine.advance program.program instruction with
          | running next => exact ih next
          | stopped outcome next => rfl

end Guarded

end StackScript
