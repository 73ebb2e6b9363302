import StackScript.Machine.Run
import StackScript.Proofs.Computation

/-!
# What one instruction does

An instruction that succeeds either moves the machine on, and `Moves` lists all the ways it can, or
halts it. What a run preserves follows from that list and does not look into the instructions again.
-/

namespace StackScript

variable {ν : Type}

namespace Machine

/-- The instruction pushes the value and pops nothing. -/
inductive Loads (program : Program ν) (machine : Machine ν) : Instruction → Value ν → Prop
  | literal (literal : Literal) : Loads program machine (.push literal) (.ofLiteral literal)
  | global {name : String} {value : Value ν} (held : machine.global? program name = some value) :
      Loads program machine (.loadGlobal name) value
  | slot {slot : Nat} {frame : Frame} {frames : List Frame} {value : Value ν}
      (active : machine.frames = frame :: frames)
      (held : machine.stack[frame.base + slot]? = some value) :
      Loads program machine (.loadLocal slot value.tag) value

/-- The instruction is performed and the run goes on. -/
inductive Moves [Host ν] (program : Program ν) (machine : Machine ν) :
    Instruction → Machine ν → Prop
  | load {instruction : Instruction} {value : Value ν}
      (loads : Loads program machine instruction value) (room : machine.stack.size < stackLimit) :
      Moves program machine instruction
        { machine with pc := machine.pc + 1, stack := machine.stack.push value }
  | assignGlobal {name : String} {slot : Nat} {value : Value ν}
      (top : machine.stack.back? = some value) (known : program.globals.slot? name = some slot)
      (cell : slot < machine.memory.size) :
      Moves program machine (.assignGlobal name)
        { machine with
          pc := machine.pc + 1
          stack := machine.stack.pop
          memory := machine.memory.setIfInBounds slot value }
  | setLocal {slot : Nat} {frame : Frame} {frames : List Frame} {old value : Value ν}
      (top : machine.stack.back? = some value) (active : machine.frames = frame :: frames)
      (held : machine.stack.pop[frame.base + slot]? = some old) (type : old.tag = value.tag) :
      Moves program machine (.setLocal slot value.tag)
        { machine with
          pc := machine.pc + 1
          stack := machine.stack.pop.setIfInBounds (frame.base + slot) value }
  | binary {operator : Operator} {left right result : Int64}
      (top : machine.stack.back? = some (.int right))
      (below : machine.stack.pop.back? = some (.int left))
      (apply : operator.apply left right = .ok result) :
      Moves program machine (.binary operator)
        { machine with
          pc := machine.pc + 1
          stack := machine.stack.pop.pop.push (.int result) }
  | pop {value : Value ν} (top : machine.stack.back? = some value) :
      Moves program machine .pop
        { machine with pc := machine.pc + 1, stack := machine.stack.pop }
  | jumpIfZero {target : Nat} {test : Int64} (top : machine.stack.back? = some (.int test)) :
      Moves program machine (.jumpIfZero target)
        { machine with
          pc := if test = 0 then target else machine.pc + 1
          stack := machine.stack.pop }
  | builtin {arguments : Nat} {builtin : Builtin ν} {output : Sink}
      (callee : machine.callee? arguments = some (.builtin builtin))
      (proceeds : Host.call builtin.native
          (machine.above (machine.stack.size - (arguments + 1))) machine.output =
        .ok .proceed output) :
      Moves program machine (.invoke arguments)
        { machine with
          pc := machine.pc + 1
          stack := machine.stack.take (machine.stack.size - (arguments + 1))
          output }
  | function {arguments : Nat} {func : Func}
      (callee : machine.callee? arguments = some (.function func))
      (accepts : checkArguments func (machine.above (machine.stack.size - (arguments + 1))) =
        .ok ())
      (depth : machine.frames.length < callLimit) :
      Moves program machine (.invoke arguments)
        { machine with
          pc := func.entry
          stack := machine.stack.take (machine.stack.size - (arguments + 1)) ++
            (machine.above (machine.stack.size - (arguments + 1)) ++ func.extraLocals).toArray
          frames := ⟨machine.pc + 1, machine.stack.size - (arguments + 1)⟩ :: machine.frames }
  | ret {frame : Frame} {frames : List Frame} (active : machine.frames = frame :: frames) :
      Moves program machine .ret
        { machine with
          pc := frame.resume
          stack := machine.stack.take frame.base
          frames }

/-- The instruction calls a builtin that halts the program. -/
inductive Halts [Host ν] (machine : Machine ν) : Instruction → String → Machine ν → Prop
  | builtin {arguments : Nat} {builtin : Builtin ν} {output : Sink}
      (callee : machine.callee? arguments = some (.builtin builtin))
      (halts : Host.call builtin.native
          (machine.above (machine.stack.size - (arguments + 1))) machine.output =
        .ok .halt output) :
      Halts machine (.invoke arguments) builtin.name
        { machine with
          stack := machine.stack.take (machine.stack.size - (arguments + 1))
          output }

/-! ## Values on the stack -/

theorem mem_of_mem_pop {values : Array (Value ν)} {value : Value ν} (h : value ∈ values.pop) :
    value ∈ values := by
  rw [← Array.mem_toList_iff, Array.toList_pop] at h
  exact Array.mem_toList_iff.1 ((List.dropLast_subset _) h)

theorem mem_of_mem_take {values : Array (Value ν)} {count : Nat} {value : Value ν}
    (h : value ∈ values.take count) : value ∈ values := by
  rw [← Array.mem_toList_iff, Array.take_eq_extract, Array.toList_extract] at h
  exact Array.mem_toList_iff.1 (List.mem_of_mem_take h)

theorem mem_of_back? {values : Array (Value ν)} {value : Value ν}
    (h : values.back? = some value) : value ∈ values :=
  Array.mem_of_getElem? h

theorem size_pos_of_back? {values : Array (Value ν)} {value : Value ν}
    (h : values.back? = some value) : 0 < values.size := by
  rw [Array.back?_eq_getElem?] at h
  obtain ⟨hlt, -⟩ := Array.getElem?_eq_some_iff.1 h
  omega

theorem getElem?_take (values : Array (Value ν)) (count index : Nat) :
    (values.take count)[index]? = if index < count then values[index]? else none := by
  rw [Array.take_eq_extract, ← Array.getElem?_toList, Array.toList_extract, ← Array.getElem?_toList]
  exact List.getElem?_take

theorem getElem?_take_of_lt {values : Array (Value ν)} {count index : Nat} (h : index < count) :
    (values.take count)[index]? = values[index]? := by
  rw [getElem?_take, if_pos h]

theorem getElem?_pop_of_lt {values : Array (Value ν)} {index : Nat} (h : index < values.size - 1) :
    values.pop[index]? = values[index]? := by
  rw [Array.getElem?_pop, if_pos h]

theorem mem_of_mem_above {machine : Machine ν} {place : Nat} {value : Value ν}
    (h : value ∈ machine.above place) : value ∈ machine.stack :=
  Array.mem_toList_iff.1 (List.mem_of_mem_drop h)

theorem callee?_eq_some {machine : Machine ν} {arguments : Nat} {value : Value ν}
    (h : machine.callee? arguments = some value) :
    arguments < machine.stack.size ∧ value ∈ machine.stack := by
  unfold callee? at h
  split at h
  next hlt => exact ⟨hlt, Array.mem_of_getElem? h⟩
  next => cases h

/-! ## The actions instructions are made of -/

section Actions

variable {machine machine' : Machine ν}

theorem push_ok {value : Value ν} {result : Unit} (h : push value machine = .ok result machine') :
    machine.stack.size < stackLimit ∧
      machine' = { machine with stack := machine.stack.push value } := by
  unfold push at h
  split at h <;> cases h
  exact ⟨by assumption, rfl⟩

theorem pop_ok {value : Value ν} (h : pop machine = .ok value machine') :
    machine.stack.back? = some value ∧
      machine' = { machine with stack := machine.stack.pop } := by
  unfold pop at h
  split at h <;> cases h
  exact ⟨by assumption, rfl⟩

theorem checkTag_ok {expected : TypeTag} {value : Value ν} {result : Unit}
    (h : checkTag expected value machine = .ok result machine') :
    value.tag = expected ∧ machine' = machine := by
  unfold checkTag at h
  split at h <;> cases h
  exact ⟨by assumption, rfl⟩

theorem popInt_ok {n : Int64} (h : popInt machine = .ok n machine') :
    machine.stack.back? = some (.int n) ∧
      machine' = { machine with stack := machine.stack.pop } := by
  obtain ⟨value, middle, hpop, h⟩ := bind_eq_ok.1 h
  obtain ⟨htop, rfl⟩ := pop_ok hpop
  cases value with
  | int value =>
      obtain ⟨rfl, rfl⟩ := pure_eq_ok.1 h
      exact ⟨htop, rfl⟩
  | str | builtin | function => exact absurd h throw_ne_ok

theorem globalSlot_ok {program : Program ν} {name : String} {slot : Nat}
    (h : globalSlot program name machine = .ok slot machine') :
    program.globals.slot? name = some slot ∧ slot < machine.memory.size ∧
      machine' = machine := by
  unfold globalSlot at h
  split at h
  · split at h <;> cases h
    exact ⟨by assumption, by assumption, rfl⟩
  · cases h

theorem localCell_ok {slot : Nat} {cell : Nat × Value ν}
    (h : localCell slot machine = .ok cell machine') :
    ∃ frame frames value, machine.frames = frame :: frames ∧
      machine.stack[frame.base + slot]? = some value ∧ cell = (frame.base + slot, value) ∧
      machine' = machine := by
  unfold localCell at h
  split at h
  · cases h
  next frame frames hframes =>
    split at h <;> cases h
    next value hcell => exact ⟨frame, frames, value, hframes, hcell, rfl, rfl⟩

theorem pushAll_ok {values : List (Value ν)} {result : Unit}
    (h : pushAll values machine = .ok result machine') :
    machine' = { machine with stack := machine.stack ++ values.toArray } := by
  induction values generalizing machine with
  | nil =>
      obtain ⟨-, rfl⟩ := pure_eq_ok.1 h
      simp
  | cons first rest ih =>
      obtain ⟨_, middle, hpush, h⟩ := bind_eq_ok.1 h
      obtain ⟨-, rfl⟩ := push_ok hpush
      simp [ih h]

theorem function_notMem_extraLocals (func other : Func) :
    (.function other : Value ν) ∉ func.extraLocals := by
  intro h
  obtain ⟨extra, -, h⟩ := List.mem_map.1 h
  exact Value.initial_ne_function extra.type other h

theorem loadGlobal_ok {program : Program ν} {name : String} {result : Unit}
    (h : loadGlobal program name machine = .ok result machine') :
    ∃ value, machine.global? program name = some value ∧ machine.stack.size < stackLimit ∧
      machine' = { machine with stack := machine.stack.push value } := by
  rw [loadGlobal, get_bind] at h
  cases hheld : machine.global? program name with
  | none =>
      rw [hheld] at h
      exact absurd h throw_ne_ok
  | some value =>
      rw [hheld] at h
      obtain ⟨hroom, rfl⟩ := push_ok h
      exact ⟨value, rfl, hroom, rfl⟩

theorem assignGlobal_ok {program : Program ν} {name : String} {result : Unit}
    (h : assignGlobal program name machine = .ok result machine') :
    ∃ value slot, machine.stack.back? = some value ∧ program.globals.slot? name = some slot ∧
      slot < machine.memory.size ∧
      machine' = { machine with
        stack := machine.stack.pop
        memory := machine.memory.setIfInBounds slot value } := by
  obtain ⟨value, popped, hpop, hrest⟩ := bind_eq_ok.1 h
  obtain ⟨htop, rfl⟩ := pop_ok hpop
  obtain ⟨slot, middle, hslot, hset⟩ := bind_eq_ok.1 hrest
  obtain ⟨hknown, hcell, rfl⟩ := globalSlot_ok hslot
  cases hset
  exact ⟨value, slot, htop, hknown, hcell, rfl⟩

theorem loadLocal_ok {slot : Nat} {type : TypeTag} {result : Unit}
    (h : loadLocal slot type machine = .ok result machine') :
    ∃ frame frames value, machine.frames = frame :: frames ∧
      machine.stack[frame.base + slot]? = some value ∧ value.tag = type ∧
      machine.stack.size < stackLimit ∧
      machine' = { machine with stack := machine.stack.push value } := by
  obtain ⟨cell, middle, hcell, hrest⟩ := bind_eq_ok.1 h
  obtain ⟨frame, frames, value, hframes, hvalue, rfl, rfl⟩ := localCell_ok hcell
  obtain ⟨_, middle', hcheck, hpush⟩ := bind_eq_ok.1 hrest
  obtain ⟨htag, rfl⟩ := checkTag_ok hcheck
  obtain ⟨hroom, rfl⟩ := push_ok hpush
  exact ⟨frame, frames, value, hframes, hvalue, htag, hroom, rfl⟩

theorem setLocal_ok {slot : Nat} {type : TypeTag} {result : Unit}
    (h : setLocal slot type machine = .ok result machine') :
    ∃ frame frames old value, machine.stack.back? = some value ∧
      machine.frames = frame :: frames ∧
      machine.stack.pop[frame.base + slot]? = some old ∧ old.tag = type ∧ value.tag = type ∧
      machine' = { machine with
        stack := machine.stack.pop.setIfInBounds (frame.base + slot) value } := by
  obtain ⟨value, popped, hpop, hrest⟩ := bind_eq_ok.1 h
  obtain ⟨htop, rfl⟩ := pop_ok hpop
  obtain ⟨cell, middle, hcell, hchecks⟩ := bind_eq_ok.1 hrest
  obtain ⟨frame, frames, old, hframes, hold, rfl, rfl⟩ := localCell_ok hcell
  obtain ⟨_, middle, hcheckOld, hcheck⟩ := bind_eq_ok.1 hchecks
  obtain ⟨holdTag, rfl⟩ := checkTag_ok hcheckOld
  obtain ⟨_, middle, hcheckNew, hset⟩ := bind_eq_ok.1 hcheck
  obtain ⟨htag, rfl⟩ := checkTag_ok hcheckNew
  cases hset
  exact ⟨frame, frames, old, value, htop, hframes, hold, holdTag, htag, rfl⟩

theorem binary_ok {operator : Operator} {result : Unit}
    (h : binary operator machine = .ok result machine') :
    ∃ left right n, machine.stack.back? = some (.int right) ∧
      machine.stack.pop.back? = some (.int left) ∧ operator.apply left right = .ok n ∧
      machine' = { machine with stack := machine.stack.pop.pop.push (.int n) } := by
  obtain ⟨right, middle, hright, h⟩ := bind_eq_ok.1 h
  obtain ⟨htop, rfl⟩ := popInt_ok hright
  obtain ⟨left, middle, hleft, h⟩ := bind_eq_ok.1 h
  obtain ⟨hbelow, rfl⟩ := popInt_ok hleft
  cases happly : operator.apply left right with
  | error fault =>
      rw [happly] at h
      exact absurd h throw_ne_ok
  | ok n =>
      rw [happly] at h
      obtain ⟨-, rfl⟩ := push_ok h
      exact ⟨left, right, n, htop, hbelow, happly, rfl⟩

end Actions

/-! ## Function values -/

section Functions

variable {program : Program ν} {machine machine' : Machine ν}

/-- The function is a value on the stack or in memory. -/
def Holds (machine : Machine ν) (func : Func) : Prop :=
  .function func ∈ machine.stack ∨ .function func ∈ machine.memory

theorem holds_of_global? {name : String} {func : Func}
    (h : machine.global? program name = some (.function func)) : machine.Holds func := by
  obtain ⟨slot, -, hslot⟩ := Option.bind_eq_some_iff.1 h
  exact .inr (Array.mem_of_getElem? hslot)

theorem Loads.holds {instruction : Instruction} {func : Func}
    (h : Loads program machine instruction (.function func)) : machine.Holds func := by
  generalize hvalue : Value.function func = value at h
  cases h with
  | literal literal => cases literal <;> cases hvalue
  | global held => exact holds_of_global? (hvalue ▸ held)
  | slot active held => exact .inl (Array.mem_of_getElem? (hvalue ▸ held))

end Functions

/-! ## Instructions -/

section Instructions

variable [Host ν] {program : Program ν} {machine middle machine' : Machine ν}

/-- What became of a machine when an instruction was performed, before the program counter
moves. -/
def Performed (program : Program ν) (machine : Machine ν) (instruction : Instruction)
    (middle : Machine ν) : Signal → Prop
  | .next => Moves program machine instruction { middle with pc := middle.pc + 1 }
  | .jump target => Moves program machine instruction { middle with pc := target }
  | .halt name => machine.Halts instruction name middle

theorem callBuiltin_ok {arguments : Nat} {builtin : Builtin ν} {signal : Signal}
    (hcallee : machine.callee? arguments = some (.builtin builtin))
    (h : callBuiltin builtin (machine.stack.size - (arguments + 1)) machine =
      .ok signal middle) :
    Performed program machine (.invoke arguments) middle signal := by
  simp only [callBuiltin] at h
  split at h <;> cases h
  next output hcall => exact .builtin hcallee hcall
  next output hcall => exact .builtin hcallee hcall

theorem callFunction_ok {arguments : Nat} {func : Func} {signal : Signal}
    (hcallee : machine.callee? arguments = some (.function func))
    (h : callFunction func (machine.stack.size - (arguments + 1)) machine = .ok signal middle) :
    Performed program machine (.invoke arguments) middle signal := by
  rw [callFunction, get_bind] at h
  cases haccepts : checkArguments func (machine.above (machine.stack.size - (arguments + 1))) with
  | error fault =>
      simp only [haccepts] at h
      exact absurd h throw_ne_ok
  | ok _ =>
      simp only [haccepts] at h
      split at h
      next hdepth =>
        obtain ⟨_, _, hthrow, -⟩ := bind_eq_ok.1 h
        exact absurd hthrow throw_ne_ok
      next hdepth =>
        obtain ⟨_, entered, hset, hlocals⟩ := bind_eq_ok.1 h
        cases hset
        obtain ⟨_, full, hpushes, hframe⟩ := bind_eq_ok.1 hlocals
        obtain rfl := pushAll_ok hpushes
        obtain ⟨_, framed, hmodify, hjump⟩ := bind_eq_ok.1 hframe
        cases hmodify
        obtain ⟨rfl, rfl⟩ := pure_eq_ok.1 hjump
        have hmoves : Moves program machine (.invoke arguments) _ :=
          .function hcallee haccepts (Nat.lt_of_not_le hdepth)
        simpa [Performed] using hmoves

theorem invoke_ok {arguments : Nat} {signal : Signal}
    (h : invoke arguments machine = .ok signal middle) :
    Performed program machine (.invoke arguments) middle signal := by
  rw [invoke, get_bind] at h
  cases hcallee : machine.callee? arguments with
  | none =>
      rw [hcallee] at h
      exact absurd h throw_ne_ok
  | some value =>
      rw [hcallee] at h
      cases value with
      | builtin builtin => exact callBuiltin_ok hcallee h
      | function func => exact callFunction_ok hcallee h
      | int | str => exact absurd h throw_ne_ok

theorem perform_ok {instruction : Instruction} {signal : Signal}
    (h : perform program instruction machine = .ok signal middle) :
    Performed program machine instruction middle signal := by
  cases instruction with
  | push literal =>
      obtain ⟨_, _, hpush, hnext⟩ := bind_eq_ok.1 h
      obtain ⟨rfl, rfl⟩ := pure_eq_ok.1 hnext
      obtain ⟨hroom, rfl⟩ := push_ok hpush
      exact .load (.literal literal) hroom
  | loadGlobal name =>
      obtain ⟨_, _, hload, hnext⟩ := bind_eq_ok.1 h
      obtain ⟨rfl, rfl⟩ := pure_eq_ok.1 hnext
      obtain ⟨value, hheld, hroom, rfl⟩ := loadGlobal_ok hload
      exact .load (.global hheld) hroom
  | assignGlobal name =>
      obtain ⟨_, _, hassign, hnext⟩ := bind_eq_ok.1 h
      obtain ⟨rfl, rfl⟩ := pure_eq_ok.1 hnext
      obtain ⟨value, slot, htop, hknown, hcell, rfl⟩ := assignGlobal_ok hassign
      exact .assignGlobal htop hknown hcell
  | loadLocal slot type =>
      obtain ⟨_, _, hload, hnext⟩ := bind_eq_ok.1 h
      obtain ⟨rfl, rfl⟩ := pure_eq_ok.1 hnext
      obtain ⟨frame, frames, value, hactive, hheld, rfl, hroom, rfl⟩ := loadLocal_ok hload
      exact .load (.slot hactive hheld) hroom
  | setLocal slot type =>
      obtain ⟨_, _, hset, hnext⟩ := bind_eq_ok.1 h
      obtain ⟨rfl, rfl⟩ := pure_eq_ok.1 hnext
      obtain ⟨frame, frames, old, value, htop, hactive, hheld, hold, rfl, rfl⟩ := setLocal_ok hset
      exact .setLocal htop hactive hheld hold
  | binary operator =>
      obtain ⟨_, _, hbinary, hnext⟩ := bind_eq_ok.1 h
      obtain ⟨rfl, rfl⟩ := pure_eq_ok.1 hnext
      obtain ⟨left, right, result, htop, hbelow, happly, rfl⟩ := binary_ok hbinary
      exact .binary htop hbelow happly
  | invoke arguments => exact invoke_ok h
  | ret =>
      simp only [perform, leave] at h
      split at h <;> cases h
      next frame frames hactive => exact .ret hactive
  | jumpIfZero target =>
      obtain ⟨test, _, hpop, hjump⟩ := bind_eq_ok.1 h
      obtain ⟨htop, rfl⟩ := popInt_ok hpop
      have hmoves : Moves program machine (.jumpIfZero target) _ := .jumpIfZero htop
      split at hjump
      next hzero =>
        obtain ⟨rfl, rfl⟩ := pure_eq_ok.1 hjump
        simpa [Performed, hzero] using hmoves
      next hzero =>
        obtain ⟨rfl, rfl⟩ := pure_eq_ok.1 hjump
        simpa [Performed, hzero] using hmoves
  | pop =>
      obtain ⟨value, _, hpop, hnext⟩ := bind_eq_ok.1 h
      obtain ⟨rfl, rfl⟩ := pure_eq_ok.1 hnext
      obtain ⟨htop, rfl⟩ := pop_ok hpop
      exact .pop htop

/-- A step that goes on performs the instruction at the program counter. -/
theorem moves_of_step (h : machine.step program = .running machine') :
    ∃ instruction, program.code[machine.pc]? = some instruction ∧
      Moves program machine instruction machine' := by
  unfold step at h
  split at h
  · cases h
  next instruction hcode =>
    refine ⟨instruction, hcode, ?_⟩
    unfold advance at h
    split at h <;> cases h
    next middle hperform => exact perform_ok hperform
    next target middle hperform => exact perform_ok hperform

/-- What every step preserves holds throughout a run: of the machine while it is running, and of
the machine before the step that stops it. -/
theorem run_induction {Holds : Machine ν → Prop}
    (hstep : ∀ machine machine', Holds machine → machine.step program = .running machine' →
      Holds machine')
    (h : Holds machine) (fuel : Nat) :
    match machine.run program fuel with
    | .running machine' => Holds machine'
    | .stopped outcome machine' =>
        ∃ before, Holds before ∧ before.step program = .stopped outcome machine' := by
  induction fuel generalizing machine with
  | zero => exact h
  | succ fuel ih =>
      unfold run
      cases hnext : machine.step program with
      | running next => exact ih (hstep machine next h hnext)
      | stopped outcome next => exact ⟨machine, h, hnext⟩

/-- Only the end of the code completes a run. -/
theorem completed_of_step (h : machine.step program = .stopped .completed machine') :
    program.code[machine.pc]? = none ∧ machine' = machine := by
  unfold step at h
  split at h
  next hcode =>
    cases h
    exact ⟨hcode, rfl⟩
  next instruction hcode =>
    unfold advance at h
    split at h <;> cases h

/-- No instruction makes a function. -/
theorem Moves.holds {instruction : Instruction} {func : Func}
    (h : Moves program machine instruction machine') (hfunc : machine'.Holds func) :
    machine.Holds func := by
  cases h with
  | load loads room =>
      rcases hfunc with h | h
      · rcases Array.mem_push.1 h with h | rfl
        · exact .inl h
        · exact loads.holds
      · exact .inr h
  | assignGlobal top known cell =>
      rcases hfunc with h | h
      · exact .inl (mem_of_mem_pop h)
      · rcases Array.mem_or_eq_of_mem_setIfInBounds h with h | rfl
        · exact .inr h
        · exact .inl (mem_of_back? top)
  | setLocal top active held type =>
      rcases hfunc with h | h
      · rcases Array.mem_or_eq_of_mem_setIfInBounds h with h | rfl
        · exact .inl (mem_of_mem_pop h)
        · exact .inl (mem_of_back? top)
      · exact .inr h
  | binary top below apply =>
      rcases hfunc with h | h
      · rcases Array.mem_push.1 h with h | h
        · exact .inl (mem_of_mem_pop (mem_of_mem_pop h))
        · cases h
      · exact .inr h
  | pop top | jumpIfZero top => exact hfunc.imp mem_of_mem_pop id
  | builtin callee proceeds | ret active => exact hfunc.imp mem_of_mem_take id
  | function callee accepts depth =>
      rcases hfunc with h | h
      · rcases Array.mem_append.1 h with h | h
        · exact .inl (mem_of_mem_take h)
        · rcases List.mem_append.1 (List.mem_toArray.1 h) with h | h
          · exact .inl (mem_of_mem_above h)
          · exact absurd h (function_notMem_extraLocals _ _)
      · exact .inr h

end Instructions

end Machine

end StackScript
