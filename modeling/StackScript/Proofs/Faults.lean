import StackScript.Proofs.Moves

/-!
# How an instruction fails

`Fails` lists all the ways in which an instruction can fail, each with its fault and with what it
leaves of the machine. Whatever stops a machine, it keeps its program counter, its calls and its
memory, so a stopped machine can be run again.
-/

namespace StackScript

variable {ν : Type}

/-- The fault says that no call is active. -/
def Fault.needsCall : Fault → Bool
  | .noActiveFrame | .returnOutsideFunction => true
  | _ => false

/-- The instruction starts by popping a value. -/
def Instruction.popsFirst : Instruction → Bool
  | .assignGlobal _ | .setLocal _ _ | .binary _ | .jumpIfZero _ | .pop => true
  | .push _ | .loadGlobal _ | .loadLocal _ _ | .invoke _ | .ret => false

namespace Machine

/-- The machine without the topmost value of its stack. -/
def popped (machine : Machine ν) : Machine ν :=
  { machine with stack := machine.stack.pop }

/-- The place of the value below the given number of arguments. -/
def calleePlace (machine : Machine ν) (arguments : Nat) : Nat :=
  machine.stack.size - (arguments + 1)

/-- The instruction is performed and fails with a fault; a part of its effect may remain. -/
inductive Fails [Host ν] (program : Program ν) (machine : Machine ν) :
    Instruction → Fault → Machine ν → Prop
  | full {instruction : Instruction} {value : Value ν}
      (loads : Loads program machine instruction value)
      (full : stackLimit ≤ machine.stack.size) :
      Fails program machine instruction .stackOverflow machine
  | empty {instruction : Instruction} (pops : instruction.popsFirst = true)
      (empty : machine.stack.back? = none) :
      Fails program machine instruction .stackUnderflow machine
  | loadUnresolved {name : String} (unknown : machine.global? program name = none) :
      Fails program machine (.loadGlobal name) (.unresolvedName name) machine
  | assignUnresolved {name : String} {value : Value ν}
      (top : machine.stack.back? = some value)
      (unknown : machine.global? program name = none) :
      Fails program machine (.assignGlobal name) (.unresolvedName name) machine.popped
  | loadNoFrame {slot : Nat} {type : TypeTag} (inactive : machine.frames = []) :
      Fails program machine (.loadLocal slot type) .noActiveFrame machine
  | loadOutOfRange {slot : Nat} {type : TypeTag} {frame : Frame} {frames : List Frame}
      (active : machine.frames = frame :: frames)
      (missing : machine.stack[frame.base + slot]? = none) :
      Fails program machine (.loadLocal slot type) (.localOutOfRange slot) machine
  | loadMismatch {slot : Nat} {type : TypeTag} {frame : Frame} {frames : List Frame}
      {value : Value ν} (active : machine.frames = frame :: frames)
      (held : machine.stack[frame.base + slot]? = some value) (mismatch : value.tag ≠ type) :
      Fails program machine (.loadLocal slot type) (.typeMismatch type value.tag) machine
  | setNoFrame {slot : Nat} {type : TypeTag} {value : Value ν}
      (top : machine.stack.back? = some value) (inactive : machine.frames = []) :
      Fails program machine (.setLocal slot type) .noActiveFrame machine.popped
  | setOutOfRange {slot : Nat} {type : TypeTag} {frame : Frame} {frames : List Frame}
      {value : Value ν} (top : machine.stack.back? = some value)
      (active : machine.frames = frame :: frames)
      (missing : machine.stack.pop[frame.base + slot]? = none) :
      Fails program machine (.setLocal slot type) (.localOutOfRange slot) machine.popped
  | setHeldMismatch {slot : Nat} {type : TypeTag} {frame : Frame} {frames : List Frame}
      {old value : Value ν} (top : machine.stack.back? = some value)
      (active : machine.frames = frame :: frames)
      (held : machine.stack.pop[frame.base + slot]? = some old) (mismatch : old.tag ≠ type) :
      Fails program machine (.setLocal slot type) (.typeMismatch type old.tag) machine.popped
  | setNewMismatch {slot : Nat} {type : TypeTag} {frame : Frame} {frames : List Frame}
      {old value : Value ν} (top : machine.stack.back? = some value)
      (active : machine.frames = frame :: frames)
      (held : machine.stack.pop[frame.base + slot]? = some old) (same : old.tag = type)
      (mismatch : value.tag ≠ type) :
      Fails program machine (.setLocal slot type) (.typeMismatch type value.tag) machine.popped
  | rightMismatch {operator : Operator} {value : Value ν}
      (top : machine.stack.back? = some value) (mismatch : value.tag ≠ .int) :
      Fails program machine (.binary operator) (.typeMismatch .int value.tag) machine.popped
  | leftMissing {operator : Operator} {right : Int64}
      (top : machine.stack.back? = some (.int right))
      (empty : machine.stack.pop.back? = none) :
      Fails program machine (.binary operator) .stackUnderflow machine.popped
  | leftMismatch {operator : Operator} {right : Int64} {value : Value ν}
      (top : machine.stack.back? = some (.int right))
      (below : machine.stack.pop.back? = some value) (mismatch : value.tag ≠ .int) :
      Fails program machine (.binary operator) (.typeMismatch .int value.tag)
        machine.popped.popped
  | divisionByZero {left : Int64} (top : machine.stack.back? = some (.int 0))
      (below : machine.stack.pop.back? = some (.int left)) :
      Fails program machine (.binary .div) .divisionByZero machine.popped.popped
  | resultFull {operator : Operator} {left right : Int64}
      (top : machine.stack.back? = some (.int right))
      (below : machine.stack.pop.back? = some (.int left))
      (full : stackLimit ≤ machine.popped.popped.stack.size) :
      Fails program machine (.binary operator) .stackOverflow machine.popped.popped
  | testMismatch {target : Nat} {value : Value ν} (top : machine.stack.back? = some value)
      (mismatch : value.tag ≠ .int) :
      Fails program machine (.jumpIfZero target) (.typeMismatch .int value.tag) machine.popped
  | calleeMissing {arguments : Nat} (missing : machine.callee? arguments = none) :
      Fails program machine (.invoke arguments) .stackUnderflow machine
  | notInvocable {arguments : Nat} {value : Value ν}
      (callee : machine.callee? arguments = some value)
      (builtin : value.tag ≠ .builtin) (function : value.tag ≠ .function) :
      Fails program machine (.invoke arguments) (.notInvocable value.tag) machine
  | native {arguments : Nat} {builtin : Builtin ν} {error : NativeError} {output : Sink}
      (callee : machine.callee? arguments = some (.builtin builtin))
      (fails : Host.call builtin.native (machine.above (machine.calleePlace arguments))
        machine.output = .error error output) :
      Fails program machine (.invoke arguments) (.native builtin.name error)
        { machine with stack := machine.stack.take (machine.calleePlace arguments), output }
  | arity {arguments : Nat} {func : Func}
      (callee : machine.callee? arguments = some (.function func))
      (differs : (machine.above (machine.calleePlace arguments)).length ≠ func.arity) :
      Fails program machine (.invoke arguments)
        (.arityMismatch func.name func.arity
          (machine.above (machine.calleePlace arguments)).length) machine
  | argument {arguments index : Nat} {func : Func} {expected found : TypeTag}
      (callee : machine.callee? arguments = some (.function func))
      (mismatch : firstMismatch? 0 func.params (machine.above (machine.calleePlace arguments)) =
        some (index, expected, found)) :
      Fails program machine (.invoke arguments)
        (.argumentTypeMismatch func.name index expected found) machine
  | tooDeep {arguments : Nat} {func : Func}
      (callee : machine.callee? arguments = some (.function func))
      (deep : callLimit ≤ machine.frames.length) :
      Fails program machine (.invoke arguments) .callDepthExceeded machine
  | localsFull {arguments : Nat} {func : Func} {pushed left : List (Value ν)}
      (callee : machine.callee? arguments = some (.function func))
      (accepts : checkArguments func (machine.above (machine.calleePlace arguments)) = .ok ())
      (locals : func.extraLocals = pushed ++ left) (remain : left ≠ []) :
      Fails program machine (.invoke arguments) .stackOverflow
        { machine with
          stack := machine.stack.take (machine.calleePlace arguments) ++
            (machine.above (machine.calleePlace arguments) ++ pushed).toArray }
  | outside (inactive : machine.frames = []) :
      Fails program machine .ret .returnOutsideFunction machine

/-! ## What remains of the machine -/

/-- What a machine keeps when an instruction stops it. -/
structure Kept (before after : Machine ν) : Prop where
  pc : after.pc = before.pc
  frames : after.frames = before.frames
  memory : after.memory = before.memory
  functions : ∀ func, .function func ∈ after.stack → .function func ∈ before.stack

theorem Kept.refl (machine : Machine ν) : machine.Kept machine :=
  ⟨rfl, rfl, rfl, fun _ h => h⟩

theorem Kept.trans {before middle after : Machine ν} (h : before.Kept middle)
    (h' : middle.Kept after) : before.Kept after where
  pc := h'.pc.trans h.pc
  frames := h'.frames.trans h.frames
  memory := h'.memory.trans h.memory
  functions func hfunc := h.functions func (h'.functions func hfunc)

theorem Kept.holds {machine machine' : Machine ν} {func : Func} (h : machine.Kept machine')
    (hfunc : machine'.Holds func) : machine.Holds func := by
  rcases hfunc with hstack | hmemory
  · exact .inl (h.functions func hstack)
  · exact .inr (h.memory ▸ hmemory)

theorem kept_popped (machine : Machine ν) : machine.Kept machine.popped :=
  ⟨rfl, rfl, rfl, fun _ => mem_of_mem_pop⟩

theorem kept_take (machine : Machine ν) (place : Nat) (output : Sink) :
    machine.Kept { machine with stack := machine.stack.take place, output } :=
  ⟨rfl, rfl, rfl, fun _ => mem_of_mem_take⟩

/-! ## The actions instructions are made of -/

section Actions

variable {machine machine' : Machine ν} {fault : Fault}

theorem push_fails {value : Value ν} (h : push value machine = .error fault machine') :
    stackLimit ≤ machine.stack.size ∧ fault = .stackOverflow ∧ machine' = machine := by
  unfold push at h
  split at h
  next => cases h
  next hfull =>
    cases h
    exact ⟨Nat.le_of_not_lt hfull, rfl, rfl⟩

theorem pop_fails (h : pop machine = .error fault machine') :
    machine.stack.back? = none ∧ fault = .stackUnderflow ∧ machine' = machine := by
  unfold pop at h
  split at h
  next => cases h
  next hempty =>
    cases h
    exact ⟨hempty, rfl, rfl⟩

theorem checkTag_fails {expected : TypeTag} {value : Value ν}
    (h : checkTag expected value machine = .error fault machine') :
    value.tag ≠ expected ∧ fault = .typeMismatch expected value.tag ∧ machine' = machine := by
  unfold checkTag at h
  split at h
  next => exact absurd h pure_ne_error
  next hmismatch =>
    obtain ⟨rfl, rfl⟩ := throw_eq_error.1 h
    exact ⟨hmismatch, rfl, rfl⟩

theorem popInt_fails (h : popInt machine = .error fault machine') :
    (machine.stack.back? = none ∧ fault = .stackUnderflow ∧ machine' = machine) ∨
      ∃ value, machine.stack.back? = some value ∧ value.tag ≠ .int ∧
        fault = .typeMismatch .int value.tag ∧ machine' = machine.popped := by
  rcases bind_eq_error.1 h with hpop | ⟨value, middle, hpop, hint⟩
  · exact .inl (pop_fails hpop)
  · obtain ⟨htop, rfl⟩ := pop_ok hpop
    cases value with
    | int value => exact absurd hint pure_ne_error
    | str | builtin | function =>
        obtain ⟨rfl, rfl⟩ := throw_eq_error.1 hint
        exact .inr ⟨_, htop, by simp [Value.tag], rfl, rfl⟩

theorem globalSlot_fails {program : Program ν} {name : String}
    (h : globalSlot program name machine = .error fault machine') :
    machine.global? program name = none ∧ fault = .unresolvedName name ∧ machine' = machine := by
  unfold globalSlot at h
  unfold global?
  split at h
  next slot hslot =>
    split at h <;> cases h
    next hcell =>
      rw [hslot]
      exact ⟨Array.getElem?_eq_none (Nat.le_of_not_lt hcell), rfl, rfl⟩
  next hslot =>
    cases h
    rw [hslot]
    exact ⟨rfl, rfl, rfl⟩

theorem localCell_fails {slot : Nat} (h : localCell slot machine = .error fault machine') :
    machine' = machine ∧
      ((machine.frames = [] ∧ fault = .noActiveFrame) ∨
        ∃ frame frames, machine.frames = frame :: frames ∧
          machine.stack[frame.base + slot]? = none ∧ fault = .localOutOfRange slot) := by
  unfold localCell at h
  split at h
  next hframes =>
    cases h
    exact ⟨rfl, .inl ⟨hframes, rfl⟩⟩
  next frame frames hframes =>
    split at h <;> cases h
    next hcell => exact ⟨rfl, .inr ⟨frame, frames, hframes, hcell, rfl⟩⟩

theorem pushAll_fails {values : List (Value ν)}
    (h : pushAll values machine = .error fault machine') :
    fault = .stackOverflow ∧ ∃ pushed left, values = pushed ++ left ∧ left ≠ [] ∧
      machine' = { machine with stack := machine.stack ++ pushed.toArray } := by
  induction values generalizing machine with
  | nil => exact absurd h pure_ne_error
  | cons first rest ih =>
      rcases bind_eq_error.1 h with hpush | ⟨_, middle, hpush, hothers⟩
      · obtain ⟨-, rfl, rfl⟩ := push_fails hpush
        exact ⟨rfl, [], first :: rest, rfl, by simp, by simp⟩
      · obtain ⟨-, rfl⟩ := push_ok hpush
        obtain ⟨rfl, pushed, left, rfl, hleft, rfl⟩ := ih hothers
        exact ⟨rfl, first :: pushed, left, rfl, hleft, by simp⟩

theorem apply_fails {operator : Operator} {left right : Int64}
    (h : operator.apply left right = .error fault) :
    operator = .div ∧ right = 0 ∧ fault = .divisionByZero := by
  cases operator with
  | div =>
      simp only [Operator.apply] at h
      split at h <;> cases h
      next hzero => exact ⟨rfl, hzero, rfl⟩
  | add | sub | mul | eq | gt | lt => cases h

end Actions

/-! ## Instructions -/

section Instructions

variable [Host ν] {program : Program ν} {machine machine' : Machine ν} {fault : Fault}

theorem Fails.kept {instruction : Instruction}
    (h : Fails program machine instruction fault machine') : machine.Kept machine' := by
  cases h with
  | full | empty | loadUnresolved | loadNoFrame | loadOutOfRange | loadMismatch | calleeMissing
  | notInvocable | arity | argument | tooDeep | outside => exact .refl machine
  | assignUnresolved | setNoFrame | setOutOfRange | setHeldMismatch | setNewMismatch
  | rightMismatch | leftMissing | testMismatch => exact kept_popped machine
  | leftMismatch | divisionByZero | resultFull =>
      exact (kept_popped machine).trans (kept_popped machine.popped)
  | native => exact kept_take machine _ _
  | @localsFull arguments called pushed left callee accepts locals remain =>
      refine ⟨rfl, rfl, rfl, fun func hfunc => ?_⟩
      rcases Array.mem_append.1 hfunc with hfunc | hfunc
      · exact mem_of_mem_take hfunc
      rcases List.mem_append.1 (List.mem_toArray.1 hfunc) with hfunc | hfunc
      · exact mem_of_mem_above hfunc
      · -- the locals that were pushed are initial values
        have hextra : .function func ∈ called.extraLocals :=
          locals ▸ List.mem_append_left left hfunc
        exact absurd hextra (function_notMem_extraLocals called func)

/-- Only a return and the access to a local need an active call. -/
def NeedsCall (instruction : Instruction) (fault : Fault) : Prop :=
  (instruction = .ret ∧ fault = .returnOutsideFunction) ∨
    (∃ slot type, instruction = .loadLocal slot type ∨ instruction = .setLocal slot type) ∧
      fault = .noActiveFrame

theorem Fails.needsCall {instruction : Instruction}
    (h : Fails program machine instruction fault machine') (hfault : fault.needsCall = true) :
    NeedsCall instruction fault ∧ machine.frames = [] := by
  cases h with
  | @loadNoFrame slot type inactive => exact ⟨.inr ⟨⟨slot, type, .inl rfl⟩, rfl⟩, inactive⟩
  | @setNoFrame slot type value top inactive =>
      exact ⟨.inr ⟨⟨slot, type, .inr rfl⟩, rfl⟩, inactive⟩
  | outside inactive => exact ⟨.inl ⟨rfl, rfl⟩, inactive⟩
  | _ => cases hfault

theorem loadGlobal_fails {name : String}
    (h : loadGlobal program name machine = .error fault machine') :
    Fails program machine (.loadGlobal name) fault machine' := by
  rw [loadGlobal, get_bind] at h
  cases hheld : machine.global? program name with
  | none =>
      rw [hheld] at h
      obtain ⟨rfl, rfl⟩ := throw_eq_error.1 h
      exact .loadUnresolved hheld
  | some value =>
      rw [hheld] at h
      obtain ⟨hfull, rfl, rfl⟩ := push_fails h
      exact .full (.global hheld) hfull

theorem assignGlobal_fails {name : String}
    (h : assignGlobal program name machine = .error fault machine') :
    Fails program machine (.assignGlobal name) fault machine' := by
  rcases bind_eq_error.1 h with hpop | ⟨value, middle, hpop, hrest⟩
  · obtain ⟨hempty, rfl, rfl⟩ := pop_fails hpop
    exact .empty rfl hempty
  obtain ⟨htop, rfl⟩ := pop_ok hpop
  rcases bind_eq_error.1 hrest with hslot | ⟨slot, middle, hslot, hset⟩
  · obtain ⟨hunknown, rfl, rfl⟩ := globalSlot_fails hslot
    exact .assignUnresolved htop hunknown
  · cases hset

theorem loadLocal_fails {slot : Nat} {type : TypeTag}
    (h : loadLocal slot type machine = .error fault machine') :
    Fails program machine (.loadLocal slot type) fault machine' := by
  rcases bind_eq_error.1 h with hcell | ⟨cell, middle, hcell, hrest⟩
  · obtain ⟨rfl, ⟨hframes, rfl⟩ | ⟨frame, frames, hframes, hmissing, rfl⟩⟩ :=
      localCell_fails hcell
    · exact .loadNoFrame hframes
    · exact .loadOutOfRange hframes hmissing
  obtain ⟨frame, frames, value, hframes, hheld, rfl, rfl⟩ := localCell_ok hcell
  rcases bind_eq_error.1 hrest with hcheck | ⟨_, middle', hcheck, hpush⟩
  · obtain ⟨hmismatch, rfl, rfl⟩ := checkTag_fails hcheck
    exact .loadMismatch hframes hheld hmismatch
  · obtain ⟨rfl, rfl⟩ := checkTag_ok hcheck
    obtain ⟨hfull, rfl, rfl⟩ := push_fails hpush
    exact .full (.slot hframes hheld) hfull

theorem setLocal_fails {slot : Nat} {type : TypeTag}
    (h : setLocal slot type machine = .error fault machine') :
    Fails program machine (.setLocal slot type) fault machine' := by
  rcases bind_eq_error.1 h with hpop | ⟨value, middle, hpop, hrest⟩
  · obtain ⟨hempty, rfl, rfl⟩ := pop_fails hpop
    exact .empty rfl hempty
  obtain ⟨htop, rfl⟩ := pop_ok hpop
  rcases bind_eq_error.1 hrest with hcell | ⟨cell, middle, hcell, hchecks⟩
  · obtain ⟨rfl, ⟨hframes, rfl⟩ | ⟨frame, frames, hframes, hmissing, rfl⟩⟩ :=
      localCell_fails hcell
    · exact .setNoFrame htop hframes
    · exact .setOutOfRange htop hframes hmissing
  obtain ⟨frame, frames, old, hframes, hheld, rfl, rfl⟩ := localCell_ok hcell
  rcases bind_eq_error.1 hchecks with hcheck | ⟨_, middle, hcheckOld, hcheck⟩
  · obtain ⟨hmismatch, rfl, rfl⟩ := checkTag_fails hcheck
    exact .setHeldMismatch htop hframes hheld hmismatch
  obtain ⟨hsame, rfl⟩ := checkTag_ok hcheckOld
  rcases bind_eq_error.1 hcheck with hcheckNew | ⟨_, middle, _, hset⟩
  · obtain ⟨hmismatch, rfl, rfl⟩ := checkTag_fails hcheckNew
    exact .setNewMismatch htop hframes hheld hsame hmismatch
  · cases hset

theorem binary_fails {operator : Operator} (h : binary operator machine = .error fault machine') :
    Fails program machine (.binary operator) fault machine' := by
  rcases bind_eq_error.1 h with hright | ⟨right, middle, hright, hrest⟩
  · rcases popInt_fails hright with ⟨hempty, rfl, rfl⟩ | ⟨value, htop, hmismatch, rfl, rfl⟩
    · exact .empty rfl hempty
    · exact .rightMismatch htop hmismatch
  obtain ⟨htop, rfl⟩ := popInt_ok hright
  rcases bind_eq_error.1 hrest with hleft | ⟨left, middle, hleft, happly⟩
  · rcases popInt_fails hleft with ⟨hempty, rfl, rfl⟩ | ⟨value, hbelow, hmismatch, rfl, rfl⟩
    · exact .leftMissing htop hempty
    · exact .leftMismatch htop hbelow hmismatch
  obtain ⟨hbelow, rfl⟩ := popInt_ok hleft
  cases hresult : operator.apply left right with
  | error fault' =>
      rw [hresult] at happly
      obtain ⟨rfl, rfl⟩ := throw_eq_error.1 happly
      obtain ⟨rfl, rfl, rfl⟩ := apply_fails hresult
      exact .divisionByZero htop hbelow
  | ok n =>
      rw [hresult] at happly
      obtain ⟨hfull, rfl, rfl⟩ := push_fails happly
      exact .resultFull htop hbelow hfull

theorem callBuiltin_fails {arguments : Nat} {builtin : Builtin ν}
    (hcallee : machine.callee? arguments = some (.builtin builtin))
    (h : callBuiltin builtin (machine.calleePlace arguments) machine = .error fault machine') :
    Fails program machine (.invoke arguments) fault machine' := by
  simp only [callBuiltin] at h
  split at h <;> cases h
  next error output hcall => exact .native hcallee hcall

theorem checkArguments_fails {arguments : Nat} {func : Func}
    (hcallee : machine.callee? arguments = some (.function func))
    (h : checkArguments func (machine.above (machine.calleePlace arguments)) = .error fault) :
    Fails program machine (.invoke arguments) fault machine := by
  unfold checkArguments at h
  split at h
  next =>
    split at h <;> cases h
    next index expected found hmismatch => exact .argument hcallee hmismatch
  next hdiffers =>
    cases h
    exact .arity hcallee hdiffers

theorem callFunction_fails {arguments : Nat} {func : Func}
    (hcallee : machine.callee? arguments = some (.function func))
    (h : callFunction func (machine.calleePlace arguments) machine = .error fault machine') :
    Fails program machine (.invoke arguments) fault machine' := by
  rw [callFunction, get_bind] at h
  cases haccepts : checkArguments func (machine.above (machine.calleePlace arguments)) with
  | error fault' =>
      simp only [haccepts] at h
      obtain ⟨rfl, rfl⟩ := throw_eq_error.1 h
      exact checkArguments_fails hcallee haccepts
  | ok _ =>
      simp only [haccepts] at h
      split at h
      next hdeep =>
        rcases bind_eq_error.1 h with hthrow | ⟨_, _, hthrow, -⟩
        · obtain ⟨rfl, rfl⟩ := throw_eq_error.1 hthrow
          exact .tooDeep hcallee hdeep
        · exact absurd hthrow throw_ne_ok
      next =>
        rcases bind_eq_error.1 h with hset | ⟨_, entered, hset, hlocals⟩
        · cases hset
        cases hset
        rcases bind_eq_error.1 hlocals with hpushes | ⟨_, full, hpushes, hframe⟩
        · obtain ⟨rfl, pushed, left, hsplit, hleft, rfl⟩ := pushAll_fails hpushes
          have hfails : Fails program machine (.invoke arguments) .stackOverflow _ :=
            .localsFull hcallee haccepts hsplit hleft
          simpa using hfails
        · cases hframe

theorem invoke_fails {arguments : Nat} (h : invoke arguments machine = .error fault machine') :
    Fails program machine (.invoke arguments) fault machine' := by
  rw [invoke, get_bind] at h
  cases hcallee : machine.callee? arguments with
  | none =>
      rw [hcallee] at h
      obtain ⟨rfl, rfl⟩ := throw_eq_error.1 h
      exact .calleeMissing hcallee
  | some value =>
      rw [hcallee] at h
      cases value with
      | builtin builtin => exact callBuiltin_fails hcallee h
      | function func => exact callFunction_fails hcallee h
      | int | str =>
          obtain ⟨rfl, rfl⟩ := throw_eq_error.1 h
          exact .notInvocable hcallee (by simp [Value.tag]) (by simp [Value.tag])

/-- An instruction fails only in a way that `Fails` lists. -/
theorem perform_fails {instruction : Instruction}
    (h : perform program instruction machine = .error fault machine') :
    Fails program machine instruction fault machine' := by
  cases instruction with
  | push literal =>
      rcases bind_eq_error.1 h with hpush | ⟨_, _, _, hnext⟩
      · obtain ⟨hfull, rfl, rfl⟩ := push_fails hpush
        exact .full (.literal literal) hfull
      · exact absurd hnext pure_ne_error
  | loadGlobal name =>
      rcases bind_eq_error.1 h with hload | ⟨_, _, _, hnext⟩
      · exact loadGlobal_fails hload
      · exact absurd hnext pure_ne_error
  | assignGlobal name =>
      rcases bind_eq_error.1 h with hassign | ⟨_, _, _, hnext⟩
      · exact assignGlobal_fails hassign
      · exact absurd hnext pure_ne_error
  | loadLocal slot type =>
      rcases bind_eq_error.1 h with hload | ⟨_, _, _, hnext⟩
      · exact loadLocal_fails hload
      · exact absurd hnext pure_ne_error
  | setLocal slot type =>
      rcases bind_eq_error.1 h with hset | ⟨_, _, _, hnext⟩
      · exact setLocal_fails hset
      · exact absurd hnext pure_ne_error
  | binary operator =>
      rcases bind_eq_error.1 h with hbinary | ⟨_, _, _, hnext⟩
      · exact binary_fails hbinary
      · exact absurd hnext pure_ne_error
  | invoke arguments => exact invoke_fails h
  | ret =>
      simp only [perform, leave] at h
      split at h <;> cases h
      next hframes => exact .outside hframes
  | jumpIfZero target =>
      rcases bind_eq_error.1 h with hpop | ⟨test, _, _, hjump⟩
      · rcases popInt_fails hpop with ⟨hempty, rfl, rfl⟩ | ⟨value, htop, hmismatch, rfl, rfl⟩
        · exact .empty rfl hempty
        · exact .testMismatch htop hmismatch
      · split at hjump <;> exact absurd hjump pure_ne_error
  | pop =>
      rcases bind_eq_error.1 h with hpop | ⟨_, _, _, hnext⟩
      · obtain ⟨hempty, rfl, rfl⟩ := pop_fails hpop
        exact .empty rfl hempty
      · exact absurd hnext pure_ne_error

/-! ## Steps -/

/-- A machine fails because the instruction at the program counter does. -/
theorem fails_of_step {error : RuntimeError}
    (h : machine.step program = .stopped (.failed error) machine') :
    error.index = machine.pc ∧ ∃ instruction, program.code[machine.pc]? = some instruction ∧
      Fails program machine instruction error.fault machine' := by
  unfold step at h
  split at h
  next => cases h
  next instruction hcode =>
    unfold advance at h
    split at h <;> cases h
    next fault hperform =>
      have hfails := perform_fails hperform
      exact ⟨hfails.kept.pc, instruction, hcode, hfails⟩

/-- A failure is reported at the program counter. -/
theorem failed_of_step {error : RuntimeError}
    (h : machine.step program = .stopped (.failed error) machine') :
    error.index = machine.pc ∧ ∃ instruction, program.code[machine.pc]? = some instruction ∧
      (error.fault.needsCall = true →
        NeedsCall instruction error.fault ∧ machine.frames = []) := by
  obtain ⟨hindex, instruction, hcode, hfails⟩ := fails_of_step h
  exact ⟨hindex, instruction, hcode, hfails.needsCall⟩

/-- A machine halts because the instruction at the program counter calls a builtin that does. -/
theorem halts_of_step {name : String}
    (h : machine.step program = .stopped (.halted name) machine') :
    ∃ instruction, program.code[machine.pc]? = some instruction ∧
      machine.Halts instruction name machine' := by
  unfold step at h
  split at h
  next => cases h
  next instruction hcode =>
    unfold advance at h
    split at h <;> cases h
    next hperform =>
      have hhalts : machine.Halts instruction _ machine' := perform_ok hperform
      exact ⟨instruction, hcode, hhalts⟩

/-- A step that stops the machine leaves the program counter, the calls and the memory alone. -/
theorem kept_of_step {outcome : Outcome} (h : machine.step program = .stopped outcome machine') :
    machine.Kept machine' := by
  cases outcome with
  | completed =>
      obtain ⟨-, rfl⟩ := completed_of_step h
      exact .refl machine'
  | halted name =>
      obtain ⟨instruction, -, hhalts⟩ := halts_of_step h
      cases hhalts
      exact kept_take machine _ _
  | failed error =>
      obtain ⟨-, instruction, -, hfails⟩ := fails_of_step h
      exact hfails.kept

theorem holds_of_step {func : Func} (h : (machine.step program).machine.Holds func) :
    machine.Holds func := by
  cases hstep : machine.step program with
  | running machine' =>
      rw [hstep] at h
      obtain ⟨instruction, -, hmoves⟩ := moves_of_step hstep
      exact hmoves.holds h
  | stopped outcome machine' =>
      rw [hstep] at h
      exact (kept_of_step hstep).holds h

end Instructions

end Machine

end StackScript
