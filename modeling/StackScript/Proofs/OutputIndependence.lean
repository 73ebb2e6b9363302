import StackScript.Machine.Run
import StackScript.Native
import StackScript.Proofs.Tracking

/-!
# What a machine writes

Only builtins look at the sink, and a standard native looks at it only to write: what it wants to
write and how it wants to end depend on its arguments alone. So a step from a machine with any other
sink is known from the step with this one.
-/

namespace StackScript

variable {ν : Type}

namespace Machine

/-- The machine with another sink. -/
def withOutput (machine : Machine ν) (output : Sink) : Machine ν :=
  { machine with output }

section WithOutput

variable (machine : Machine ν) (output : Sink)

@[simp] theorem withOutput_pc : (machine.withOutput output).pc = machine.pc := rfl

@[simp] theorem withOutput_stack : (machine.withOutput output).stack = machine.stack := rfl

@[simp] theorem withOutput_frames : (machine.withOutput output).frames = machine.frames := rfl

@[simp] theorem withOutput_memory : (machine.withOutput output).memory = machine.memory := rfl

@[simp] theorem withOutput_global? (program : Program ν) (name : String) :
    (machine.withOutput output).global? program name = machine.global? program name := rfl

@[simp] theorem withOutput_callee? (arguments : Nat) :
    (machine.withOutput output).callee? arguments = machine.callee? arguments := rfl

@[simp] theorem withOutput_above (place : Nat) :
    (machine.withOutput output).above place = machine.above place := rfl

end WithOutput

/-- The first machine writes to one sink, and the second is the same but writes to the other. -/
def Diverted (output output' : Sink) (left right : Machine ν) : Prop :=
  left.output = output ∧ right = left.withOutput output'

variable {output output' : Sink}

/-! ## Actions without a builtin -/

theorem push_diverted (value : Value ν) :
    Tracks (Diverted output output') (push value) (push value) := by
  rintro machine _ ⟨rfl, rfl⟩
  unfold push
  rw [withOutput_stack]
  by_cases hroom : machine.stack.size < stackLimit
  · rw [if_pos hroom, if_pos hroom]
    exact .ok ⟨rfl, rfl⟩
  · rw [if_neg hroom, if_neg hroom]
    exact .error ⟨rfl, rfl⟩

theorem pop_diverted : Tracks (Diverted output output') (pop (ν := ν)) pop := by
  rintro machine _ ⟨rfl, rfl⟩
  unfold pop
  rw [withOutput_stack]
  cases machine.stack.back? with
  | none => exact .error ⟨rfl, rfl⟩
  | some value => exact .ok ⟨rfl, rfl⟩

theorem checkTag_diverted (expected : TypeTag) (value : Value ν) :
    Tracks (Diverted output output') (checkTag expected value) (checkTag expected value) :=
  .ite .pure .throw

theorem popInt_diverted : Tracks (Diverted output output') (popInt (ν := ν)) popInt := by
  apply pop_diverted.bind
  intro value
  cases value with
  | int n => exact .pure
  | _ => exact .throw

theorem globalSlot_diverted (program : Program ν) (name : String) :
    Tracks (Diverted output output') (globalSlot program name) (globalSlot program name) := by
  rintro machine _ ⟨rfl, rfl⟩
  unfold globalSlot
  cases program.globals.slot? name with
  | none => exact .error ⟨rfl, rfl⟩
  | some slot =>
      dsimp only
      rw [withOutput_memory]
      by_cases hslot : slot < machine.memory.size
      · rw [if_pos hslot, if_pos hslot]
        exact .ok ⟨rfl, rfl⟩
      · rw [if_neg hslot, if_neg hslot]
        exact .error ⟨rfl, rfl⟩

theorem loadGlobal_diverted (program : Program ν) (name : String) :
    Tracks (Diverted output output') (loadGlobal program name) (loadGlobal program name) := by
  rintro machine _ ⟨rfl, rfl⟩
  unfold loadGlobal
  rw [get_bind, get_bind, withOutput_global?]
  cases machine.global? program name with
  | none => exact .error ⟨rfl, rfl⟩
  | some value => exact push_diverted value _ _ ⟨rfl, rfl⟩

theorem modify_diverted {change : Machine ν → Machine ν}
    (h : ∀ machine output, change (machine.withOutput output) =
      (change machine).withOutput output) :
    Tracks (Diverted output output') (modify change : Action ν PUnit) (modify change) := by
  rintro machine _ ⟨rfl, rfl⟩
  have hkept : (change machine).output = machine.output :=
    (congrArg (·.output) (h machine machine.output))
  exact .ok ⟨hkept, h machine output'⟩

theorem assignGlobal_diverted (program : Program ν) (name : String) :
    Tracks (Diverted output output') (assignGlobal program name) (assignGlobal program name) := by
  apply pop_diverted.bind
  intro value
  apply (globalSlot_diverted program name).bind
  intro slot
  exact modify_diverted fun _ _ => rfl

theorem localCell_diverted (slot : Nat) :
    Tracks (Diverted output output') (localCell (ν := ν) slot) (localCell slot) := by
  rintro machine _ ⟨rfl, rfl⟩
  unfold localCell
  rw [withOutput_frames, withOutput_stack]
  cases machine.frames with
  | nil => exact .error ⟨rfl, rfl⟩
  | cons frame frames =>
      dsimp only
      cases machine.stack[frame.base + slot]? with
      | none => exact .error ⟨rfl, rfl⟩
      | some value => exact .ok ⟨rfl, rfl⟩

theorem loadLocal_diverted (slot : Nat) (type : TypeTag) :
    Tracks (Diverted output output') (loadLocal (ν := ν) slot type) (loadLocal slot type) := by
  apply (localCell_diverted slot).bind
  rintro ⟨_, value⟩
  exact (checkTag_diverted type value).bind fun _ => push_diverted value

theorem setLocal_diverted (slot : Nat) (type : TypeTag) :
    Tracks (Diverted output output') (setLocal (ν := ν) slot type) (setLocal slot type) := by
  apply pop_diverted.bind
  intro value
  apply (localCell_diverted slot).bind
  rintro ⟨index, old⟩
  apply (checkTag_diverted type old).bind
  intro _
  apply (checkTag_diverted type value).bind
  intro _
  exact modify_diverted fun _ _ => rfl

theorem binary_diverted (operator : Operator) :
    Tracks (Diverted output output') (binary (ν := ν) operator) (binary operator) := by
  apply popInt_diverted.bind
  intro right
  apply popInt_diverted.bind
  intro left
  cases operator.apply left right with
  | ok result => exact push_diverted _
  | error fault => exact .throw

theorem pushAll_diverted (values : List (Value ν)) :
    Tracks (Diverted output output') (pushAll values) (pushAll values) := by
  induction values with
  | nil => exact .pure
  | cons first rest ih => exact (push_diverted first).bind fun _ => ih

theorem set_diverted (machine : Machine ν) :
    Tracks (Diverted machine.output output') (set machine : Action ν PUnit)
      (set (machine.withOutput output')) :=
  fun _ _ _ => .ok ⟨rfl, rfl⟩

theorem callFunction_diverted (func : Func) (place : Nat) :
    Tracks (Diverted output output') (callFunction (ν := ν) func place)
      (callFunction func place) := by
  let enter : Action ν Signal := do
    pushAll func.extraLocals
    modify fun machine => { machine with frames := ⟨machine.pc + 1, place⟩ :: machine.frames }
    return .jump func.entry
  have henter : Tracks (Diverted output output') enter enter := by
    apply (pushAll_diverted func.extraLocals).bind
    intro _
    exact (modify_diverted fun _ _ => rfl).bind fun _ => .pure
  rintro machine _ ⟨rfl, rfl⟩
  unfold callFunction
  rw [get_bind, get_bind, withOutput_above]
  cases checkArguments func (machine.above place) with
  | error fault => exact .error ⟨rfl, rfl⟩
  | ok _ =>
      -- what is put back is the state that the arguments were read from, with another stack
      let moved := { machine with
        stack := machine.stack.take place ++ (machine.above place).toArray }
      have hmoved : Tracks (Diverted machine.output output')
          (do set moved; enter : Action ν Signal) (do set (moved.withOutput output'); enter) :=
        (set_diverted moved).bind fun _ => henter
      exact (Tracks.throw.bind fun _ => hmoved).ite hmoved machine _ ⟨rfl, rfl⟩

theorem leave_diverted : Tracks (Diverted output output') (leave (ν := ν)) leave := by
  rintro machine _ ⟨rfl, rfl⟩
  unfold leave
  rw [withOutput_frames]
  cases machine.frames with
  | nil => exact .error ⟨rfl, rfl⟩
  | cons frame frames => exact .ok ⟨rfl, rfl⟩

/-! ## Steps -/

variable [Host ν]

/-- The next instruction calls a builtin with the given number of arguments. -/
structure CallsBuiltin (program : Program ν) (machine : Machine ν) (arguments : Nat)
    (builtin : Builtin ν) : Prop where
  code : program.code[machine.pc]? = some (.invoke arguments)
  callee : machine.callee? arguments = some (.builtin builtin)

/-- Where a machine stands after a builtin has answered. The callee and the arguments are gone. -/
def answered (machine : Machine ν) (builtin : Builtin ν) (place : Nat) :
    EStateM.Result NativeError Sink Flow → Progress ν
  | .ok .proceed output =>
      .running { machine with pc := machine.pc + 1, stack := machine.stack.take place, output }
  | .ok .halt output =>
      .stopped (.halted builtin.name) { machine with stack := machine.stack.take place, output }
  | .error error output =>
      .stopped (.failed ⟨machine.pc, .native builtin.name error⟩)
        { machine with stack := machine.stack.take place, output }

/-- A step that calls a builtin. -/
theorem CallsBuiltin.step {program : Program ν} {machine : Machine ν} {arguments : Nat}
    {builtin : Builtin ν} (h : machine.CallsBuiltin program arguments builtin) :
    let place := machine.stack.size - (arguments + 1)
    machine.step program = machine.answered builtin place
      (Host.call builtin.native (machine.above place) machine.output) := by
  intro place
  have hinvoke : invoke arguments machine = callBuiltin builtin place machine := by
    unfold invoke
    rw [get_bind, h.callee]
  unfold Machine.step advance
  rw [h.code]
  simp only [perform, hinvoke, callBuiltin]
  cases Host.call builtin.native (machine.above place) machine.output with
  | error error output => rfl
  | ok flow output =>
      cases flow with
      | proceed => rfl
      | halt => rfl

theorem invoke_diverted {machine : Machine ν} {arguments : Nat}
    (h : ∀ builtin, machine.callee? arguments ≠ some (.builtin builtin)) :
    SameEnd (Diverted machine.output output) (invoke arguments machine)
      (invoke arguments (machine.withOutput output)) := by
  unfold invoke
  rw [get_bind, get_bind, withOutput_callee?]
  cases hfound : machine.callee? arguments with
  | none => exact .error ⟨rfl, rfl⟩
  | some value =>
      cases value with
      | builtin builtin => exact absurd hfound (h builtin)
      | function func => exact callFunction_diverted func _ _ _ ⟨rfl, rfl⟩
      | _ => exact .error ⟨rfl, rfl⟩

/-- An instruction that calls no builtin does the same whatever the sink is. -/
theorem perform_diverted (program : Program ν) (instruction : Instruction) (machine : Machine ν)
    (h : ∀ arguments builtin, instruction = .invoke arguments →
      machine.callee? arguments ≠ some (.builtin builtin)) (output : Sink) :
    SameEnd (Diverted machine.output output) (perform program instruction machine)
      (perform program instruction (machine.withOutput output)) := by
  have hstart : Diverted machine.output output machine (machine.withOutput output) := ⟨rfl, rfl⟩
  cases instruction with
  | push literal => exact (push_diverted _).bind (fun _ => .pure) _ _ hstart
  | loadGlobal name => exact (loadGlobal_diverted program name).bind (fun _ => .pure) _ _ hstart
  | assignGlobal name =>
      exact (assignGlobal_diverted program name).bind (fun _ => .pure) _ _ hstart
  | loadLocal slot type => exact (loadLocal_diverted slot type).bind (fun _ => .pure) _ _ hstart
  | setLocal slot type => exact (setLocal_diverted slot type).bind (fun _ => .pure) _ _ hstart
  | binary operator => exact (binary_diverted operator).bind (fun _ => .pure) _ _ hstart
  | ret => exact leave_diverted _ _ hstart
  | jumpIfZero target => exact popInt_diverted.bind (fun _ => .ite .pure .pure) _ _ hstart
  | pop => exact pop_diverted.bind (fun _ => .pure) _ _ hstart
  | invoke arguments => exact invoke_diverted fun builtin => h arguments builtin rfl

end Machine

/-- The progress with another sink. -/
def Progress.withOutput (progress : Progress ν) (output : Sink) : Progress ν :=
  match progress with
  | .running machine => .running (machine.withOutput output)
  | .stopped outcome machine => .stopped outcome (machine.withOutput output)

/-- A step that calls no builtin leaves the sink alone, and is the same whatever the sink is. -/
theorem Machine.step_withOutput [Host ν] {program : Program ν} {machine : Machine ν}
    (h : ∀ arguments builtin, ¬ machine.CallsBuiltin program arguments builtin) :
    (machine.step program).machine.output = machine.output ∧
      ∀ output, (machine.withOutput output).step program =
        (machine.step program).withOutput output := by
  cases hcode : program.code[machine.pc]? with
  | none =>
      have hstop : ∀ output, (machine.withOutput output).step program =
          .stopped .completed (machine.withOutput output) := by
        intro output
        simp only [step, withOutput_pc, hcode]
      have hstep : machine.step program = .stopped .completed machine := hstop machine.output
      rw [hstep]
      exact ⟨rfl, hstop⟩
  | some instruction =>
      have hperform := perform_diverted program instruction machine
        fun arguments builtin hinvoke hcallee =>
          h arguments builtin ⟨hinvoke ▸ hcode, hcallee⟩
      have hstep : ∀ output, (machine.step program).machine.output = machine.output ∧
          (machine.withOutput output).step program =
            (machine.step program).withOutput output := by
        intro output
        have hsame := hperform output
        simp only [step, withOutput_pc, hcode, advance]
        generalize perform program instruction machine = left,
          perform program instruction (machine.withOutput output) = right at hsame
        cases hsame with
        | @ok signal after _ hafter =>
            obtain ⟨houtput, rfl⟩ := hafter
            cases signal <;> exact ⟨houtput, rfl⟩
        | error hafter =>
            obtain ⟨houtput, rfl⟩ := hafter
            exact ⟨houtput, rfl⟩
      exact ⟨(hstep machine.output).1, fun output => (hstep output).2⟩

/-! ## Sinks -/

theorem extract_of_size_le {data : ByteArray} {count : Nat} (h : data.size ≤ count) :
    data.extract 0 count = data := by
  rw [← Nat.max_eq_left h, ByteArray.extract_zero_max_size]

/-- Appends bytes, or as many of them as fit. -/
def Sink.put (data : ByteArray) : EStateM SinkError Sink Unit := fun sink =>
  let kept := sink.fitting data
  let sink := { sink with bytes := sink.bytes ++ kept }
  if kept.size = data.size then .ok () sink else .error .full sink

namespace Sink

theorem put_empty (sink : Sink) : put .empty sink = .ok () sink := by
  have hkept : sink.fitting .empty = .empty := by
    unfold fitting
    cases sink.capacity with
    | none => rfl
    | some capacity => simp
  unfold put
  simp [hkept]

/-- Writing to a sink without a capacity succeeds. -/
theorem put_unlimited (data bytes : ByteArray) :
    put data ⟨bytes, none⟩ = .ok () ⟨bytes ++ data, none⟩ :=
  if_pos rfl

/-- What fits is written. -/
theorem put_fits {data bytes : ByteArray} {limit : Nat} (h : (bytes ++ data).size ≤ limit) :
    put data ⟨bytes, some limit⟩ = .ok () ⟨bytes ++ data, some limit⟩ := by
  rw [ByteArray.size_append] at h
  have hkept : fitting ⟨bytes, some limit⟩ data = data := by
    have hroom : data.size ≤ limit - bytes.size := by omega
    exact extract_of_size_le hroom
  unfold put
  simp only [hkept, ↓reduceIte]

/-- What does not fit is cut off at the capacity. -/
theorem put_crosses {data bytes : ByteArray} {limit : Nat} (hbefore : bytes.size ≤ limit)
    (hafter : limit < (bytes ++ data).size) :
    put data ⟨bytes, some limit⟩ = .error .full ⟨(bytes ++ data).extract 0 limit, some limit⟩ := by
  rw [ByteArray.size_append] at hafter
  have hsize : (data.extract 0 (limit - bytes.size)).size ≠ data.size := by
    rw [ByteArray.size_extract]
    omega
  have hbytes : bytes ++ data.extract 0 (limit - bytes.size) = (bytes ++ data).extract 0 limit := by
    rw [ByteArray.extract_append, extract_of_size_le hbefore, Nat.zero_sub]
  unfold put fitting
  simp only [if_neg hsize, hbytes]

/-- Writing twice is writing once. -/
theorem put_append (first second : ByteArray) :
    (do put first; put second) = put (first ++ second) := by
  funext sink
  obtain ⟨bytes, capacity⟩ := sink
  cases capacity with
  | none =>
      rw [bind_of_ok (put_unlimited first bytes), put_unlimited, put_unlimited,
        ByteArray.append_assoc]
  | some limit =>
      have hkept : (first ++ second).extract 0 (limit - bytes.size) =
          first.extract 0 (limit - bytes.size) ++
            second.extract 0 (limit - bytes.size - first.size) := by
        rw [ByteArray.extract_append, Nat.zero_sub]
      by_cases hroom : first.size ≤ limit - bytes.size
      · -- the first part fits, and the second has the room that is left
        have hfirst : put first ⟨bytes, some limit⟩ = .ok () ⟨bytes ++ first, some limit⟩ := by
          unfold put fitting
          simp only [extract_of_size_le hroom, ↓reduceIte]
        rw [bind_of_ok hfirst]
        unfold put fitting
        simp only [hkept, extract_of_size_le hroom, ByteArray.append_assoc, ByteArray.size_append,
          Nat.add_left_cancel_iff, Nat.sub_sub]
      · -- the first part is cut off already, and nothing is left of the second
        have hsize : (first.extract 0 (limit - bytes.size)).size ≠ first.size := by
          rw [ByteArray.size_extract]
          omega
        have hnone : second.extract 0 (limit - bytes.size - first.size) = .empty := by
          rw [Nat.sub_eq_zero_of_le (Nat.le_of_not_le hroom), ByteArray.extract_same]
        have hsize' : (first.extract 0 (limit - bytes.size)).size ≠ (first ++ second).size := by
          rw [ByteArray.size_extract, ByteArray.size_append]
          omega
        have hfirst : put first ⟨bytes, some limit⟩ =
            .error .full ⟨bytes ++ first.extract 0 (limit - bytes.size), some limit⟩ := by
          unfold put fitting
          simp only [if_neg hsize]
        rw [bind_eq_error.2 (.inl hfirst)]
        unfold put fitting
        simp only [hkept, hnone, ByteArray.append_empty, if_neg hsize']

end Sink

/-! ## Standard natives -/

namespace Native

/-- Prints bytes. -/
def put (data : ByteArray) : NativeCall Unit :=
  (Sink.put data).adaptExcept NativeError.output

/-- The bytes of a text and a line end. -/
def line (text : String) : ByteArray :=
  (text ++ "\n").toUTF8

/-- The bytes of values, each on a line of its own. -/
def lines : List (Value ν) → ByteArray
  | [] => .empty
  | first :: rest => line first.render ++ lines rest

/-- What a standard native writes to a sink that takes everything. -/
def written (arguments : List (Value ν)) : Native → ByteArray
  | .printOne =>
      match arguments with
      | [value] => line value.render
      | _ => .empty
  | .printAll => lines arguments
  | .printSum =>
      match sum 0 0 arguments with
      | .ok total => line (toString total.toInt)
      | .error _ => .empty
  | .done => line "done the program"

/-- How a standard native ends if all it writes fits. -/
def answer (arguments : List (Value ν)) : Native → Except NativeError Flow
  | .printOne =>
      match arguments with
      | [_] => .ok .proceed
      | _ => .error (.arity 1 arguments.length)
  | .printAll => .ok .proceed
  | .printSum =>
      match sum 0 0 arguments with
      | .ok _ => .ok .proceed
      | .error error => .error error
  | .done => .ok .halt

/-- Ends a call with what was decided. -/
def finish : Except NativeError Flow → NativeCall Flow
  | .ok flow => pure flow
  | .error error => throw error

theorem put_empty : put .empty = pure () := by
  funext sink
  simp only [put, EStateM.adaptExcept, Sink.put_empty]
  rfl

theorem put_append (first second : ByteArray) :
    (do put first; put second) = put (first ++ second) := by
  funext sink
  have happend := congrFun (Sink.put_append first second) sink
  simp only [put, EStateM.adaptExcept, Bind.bind, EStateM.bind] at happend ⊢
  rw [← happend]
  cases Sink.put first sink with
  | ok _ sink' => rfl
  | error error sink' => rfl

theorem printLine_eq (text : String) : printLine text = put (line text) :=
  rfl

theorem printValues_eq (values : List (Value ν)) : printValues values = put (lines values) := by
  induction values with
  | nil => exact put_empty.symm
  | cons first rest ih =>
      rw [printValues, ih, printLine_eq, put_append]
      rfl

/-- A standard native writes, and ends as its arguments say if all of that fits. -/
theorem perform_eq (native : Native) (arguments : List (Value ν)) :
    perform native arguments =
      (put (written arguments native) >>= fun _ => finish (answer arguments native)) := by
  cases native with
  | printOne =>
      match arguments with
      | [value] => rfl
      | [] | _ :: _ :: _ =>
          change _ = (put .empty >>= _)
          rw [put_empty]
          rfl
  | printAll =>
      rw [perform, printValues_eq]
      rfl
  | printSum =>
      unfold perform written answer
      cases sum 0 0 arguments with
      | ok total => rfl
      | error error =>
          rw [put_empty]
          rfl
  | done => rfl

end Native

/-! ## What a step writes -/

namespace Machine

variable {program : Program Native} {machine : Machine Native}

/-- A step of the machine writes `data`, whatever the sink is. If all of it fits, the step leads to
`after` but for the sink. If not, the step is a call of a builtin, which fails. -/
structure StepWrites (program : Program Native) (machine : Machine Native) (data : ByteArray)
    (after : Progress Native) : Prop where
  fits : ∀ {output output' : Sink}, Native.put data output = .ok () output' →
    (machine.withOutput output).step program = after.withOutput output'
  fails : ∀ {output output' : Sink} {error : NativeError},
    Native.put data output = .error error output' →
    ∃ arguments builtin, machine.CallsBuiltin program arguments builtin ∧
      (machine.withOutput output).step program =
        .stopped (.failed ⟨machine.pc, .native builtin.name error⟩)
          { machine with
            stack := machine.stack.take (machine.stack.size - (arguments + 1)), output := output' }

/-- A call of a builtin writes what its native does. -/
theorem CallsBuiltin.stepWrites {arguments : Nat} {builtin : Builtin Native}
    (h : machine.CallsBuiltin program arguments builtin) :
    ∃ data after, machine.StepWrites program data after := by
  let place := machine.stack.size - (arguments + 1)
  let given := machine.above place
  have hstep : ∀ output, (machine.withOutput output).step program =
      machine.answered builtin place (Native.perform builtin.native given output) := by
    intro output
    have hcalls : (machine.withOutput output).CallsBuiltin program arguments builtin :=
      ⟨h.code, h.callee⟩
    rw [hcalls.step]
    change answered _ builtin place (Native.perform builtin.native given output) = _
    cases Native.perform builtin.native given output with
    | error error output' => rfl
    | ok flow output' => cases flow <;> rfl
  refine ⟨Native.written given builtin.native, machine.answered builtin place
    (Native.finish (Native.answer given builtin.native) machine.output), ?_, ?_⟩
  · intro output output' hput
    rw [hstep, Native.perform_eq, bind_of_ok hput]
    cases Native.answer given builtin.native with
    | error error => rfl
    | ok flow => cases flow <;> rfl
  · intro output output' error hput
    refine ⟨arguments, builtin, h, ?_⟩
    rw [hstep, Native.perform_eq, bind_eq_error.2 (.inl hput)]
    rfl

theorem exists_stepWrites (program : Program Native) (machine : Machine Native) :
    ∃ data after, machine.StepWrites program data after := by
  by_cases hcalls : ∃ arguments builtin, machine.CallsBuiltin program arguments builtin
  · obtain ⟨arguments, builtin, hcalls⟩ := hcalls
    exact hcalls.stepWrites
  · -- nothing is written, and that always fits
    have hnone : ∀ arguments builtin, ¬ machine.CallsBuiltin program arguments builtin :=
      fun arguments builtin h => hcalls ⟨arguments, builtin, h⟩
    refine ⟨.empty, machine.step program, ?_, ?_⟩
    · intro output output' hput
      rw [Native.put_empty] at hput
      cases hput
      exact (step_withOutput hnone).2 output
    · intro output output' error hput
      rw [Native.put_empty] at hput
      cases hput

/-- Without a capacity, a step puts what it writes behind what was written before. -/
theorem StepWrites.unlimited {data : ByteArray} {after : Progress Native}
    (h : machine.StepWrites program data after) (bytes : ByteArray) :
    (machine.withOutput ⟨bytes, none⟩).step program = after.withOutput ⟨bytes ++ data, none⟩ := by
  apply h.fits
  simp only [Native.put, EStateM.adaptExcept, Sink.put_unlimited]

end Machine

end StackScript
