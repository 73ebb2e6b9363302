import StackScript.Proofs.ControlFlow

/-!
# The calls of a run

While a run is inside a call, the state in which the call was made says where the run goes on
afterwards. `Runs` keeps these states beside the machine. What holds locally, of the machine and
the innermost call, is carried through a run by `Runs.everywhere`: a return goes back to what was
known of the caller when it made the call.
-/

namespace StackScript

variable {ν : Type}

namespace Machine

/-- An active call: the machine that made it, right before, and the function that was called. -/
structure Call (ν : Type) where
  origin : Machine ν
  func : Func

/-- A property of the machine and the innermost call holds of the machine, and of the origin of
each active call with the call around it. -/
def Everywhere (Local : Machine ν → Option (Call ν) → Prop) :
    Machine ν → List (Call ν) → Prop
  | machine, [] => Local machine none
  | machine, call :: calls => Local machine (some call) ∧ Everywhere Local call.origin calls

theorem Everywhere.head {Local : Machine ν → Option (Call ν) → Prop} {machine : Machine ν}
    {calls : List (Call ν)} (h : Everywhere Local machine calls) : Local machine calls.head? := by
  cases calls with
  | nil => exact h
  | cons call calls => exact h.1

theorem Everywhere.of_head {Local : Machine ν → Option (Call ν) → Prop}
    {machine machine' : Machine ν} {calls : List (Call ν)} (h : Everywhere Local machine calls)
    (hlocal : Local machine' calls.head?) :
    Everywhere Local machine' calls := by
  cases calls with
  | nil => exact hlocal
  | cons call calls => exact ⟨hlocal, h.2⟩

/-- The machine after a call. -/
def entered (machine : Machine ν) (arguments : Nat) (func : Func) : Machine ν :=
  let place := machine.calleePlace arguments
  { machine with
    pc := func.entry
    stack := machine.stack.take place ++ (machine.above place ++ func.extraLocals).toArray
    frames := ⟨machine.pc + 1, place⟩ :: machine.frames }

/-- The machine after the return from a call. -/
def returned (machine : Machine ν) (frame : Frame) (frames : List Frame) : Machine ν :=
  { machine with pc := frame.resume, stack := machine.stack.take frame.base, frames }

theorem size_stack_take_calleePlace (machine : Machine ν) (arguments : Nat) :
    (machine.stack.take (machine.calleePlace arguments)).size = machine.calleePlace arguments := by
  simp [calleePlace]

/-- A call does not touch what is below the callee. -/
theorem getElem?_entered_below {machine : Machine ν} {arguments index : Nat} {func : Func}
    (h : index < machine.calleePlace arguments) :
    (machine.entered arguments func).stack[index]? = machine.stack[index]? := by
  have hlt := h
  rw [← size_stack_take_calleePlace machine arguments] at hlt
  simp only [entered]
  rw [Array.getElem?_append_left hlt, getElem?_take_of_lt h]

/-- The arguments and the other locals of a function stand from the place of the callee on. -/
theorem getElem?_entered_slot (machine : Machine ν) (arguments slot : Nat) (func : Func) :
    (machine.entered arguments func).stack[machine.calleePlace arguments + slot]? =
      (machine.above (machine.calleePlace arguments) ++ func.extraLocals)[slot]? := by
  have hsize := size_stack_take_calleePlace machine arguments
  simp only [entered]
  rw [Array.getElem?_append_right (by omega), hsize, Nat.add_sub_cancel_left,
    List.getElem?_toArray]

variable [Host ν]

/-- The states of a run before an instruction or at the end of the code, with the active calls, the
innermost first. A machine that has stopped goes on from where it is only if it is run again. -/
inductive Runs (program : Program ν) (output : Sink) (again : Bool) :
    Machine ν → List (Call ν) → Prop
  | start : Runs program output again (start program output) []
  | step {machine machine' : Machine ν} {calls : List (Call ν)}
      (runs : Runs program output again machine calls)
      (next : machine.step program = .running machine')
      (frames : machine'.frames = machine.frames) : Runs program output again machine' calls
  | call {machine machine' : Machine ν} {calls : List (Call ν)} {arguments : Nat} {func : Func}
      (runs : Runs program output again machine calls)
      (next : machine.step program = .running machine')
      (code : program.code[machine.pc]? = some (.invoke arguments))
      (callee : machine.callee? arguments = some (.function func)) :
      Runs program output again machine' (⟨machine, func⟩ :: calls)
  | ret {machine machine' : Machine ν} {call : Call ν} {calls : List (Call ν)}
      (runs : Runs program output again machine (call :: calls))
      (next : machine.step program = .running machine')
      (code : program.code[machine.pc]? = some .ret) : Runs program output again machine' calls
  | stop {machine machine' : Machine ν} {calls : List (Call ν)} {outcome : Outcome}
      (resumes : again = true) (runs : Runs program output again machine calls)
      (next : machine.step program = .stopped outcome machine') :
      Runs program output again machine' calls

variable {program : Program ν} {output : Sink} {again : Bool} {machine machine' : Machine ν}
  {calls : List (Call ν)}

theorem length_ne_of_frames {frame : Frame} {frames : List Frame} : frames ≠ frame :: frames := by
  intro h
  have := congrArg List.length h
  simp at this

/-- A call of a function leads into the function. -/
theorem entered_of_step {arguments : Nat} {func : Func}
    (hstep : machine.step program = .running machine')
    (hcode : program.code[machine.pc]? = some (.invoke arguments))
    (hcallee : machine.callee? arguments = some (.function func)) :
    machine' = machine.entered arguments func ∧
      checkArguments func (machine.above (machine.calleePlace arguments)) = .ok () := by
  obtain ⟨instruction, hfound, hmoves⟩ := moves_of_step hstep
  obtain rfl := Option.some.inj (hcode.symm.trans hfound)
  generalize hinstruction : Instruction.invoke arguments = instruction at hmoves
  cases hmoves with
  | load loads => cases loads <;> cases hinstruction
  | assignGlobal | setLocal | binary | pop | jumpIfZero | ret => cases hinstruction
  | builtin callee =>
      cases hinstruction
      rw [hcallee] at callee
      cases callee
  | function callee accepts depth =>
      cases hinstruction
      rw [hcallee] at callee
      cases callee
      exact ⟨rfl, accepts⟩

/-- A return leads to where its frame says. -/
theorem returned_of_step (hstep : machine.step program = .running machine')
    (hcode : program.code[machine.pc]? = some .ret) :
    ∃ frame frames, machine.frames = frame :: frames ∧
      machine' = machine.returned frame frames := by
  obtain ⟨instruction, hfound, hmoves⟩ := moves_of_step hstep
  obtain rfl := Option.some.inj (hcode.symm.trans hfound)
  generalize hinstruction : Instruction.ret = instruction at hmoves
  cases hmoves with
  | load loads => cases loads <;> cases hinstruction
  | assignGlobal | setLocal | binary | pop | jumpIfZero | builtin | function => cases hinstruction
  | ret active => exact ⟨_, _, active, rfl⟩

/-- The frames of the machine are those that its calls have left. -/
def Within (program : Program ν) (output : Sink) (again : Bool) :
    Machine ν → List (Call ν) → Prop
  | machine, [] => machine.frames = []
  | machine, call :: calls =>
      (∃ arguments, program.code[call.origin.pc]? = some (.invoke arguments) ∧
        call.origin.callee? arguments = some (.function call.func) ∧
        machine.frames =
          ⟨call.origin.pc + 1, call.origin.calleePlace arguments⟩ :: call.origin.frames) ∧
      Runs program output again call.origin calls ∧ Within program output again call.origin calls

theorem Within.of_frames_eq (h : Within program output again machine calls)
    (hframes : machine'.frames = machine.frames) : Within program output again machine' calls := by
  cases calls with
  | nil => exact hframes.trans h
  | cons call calls =>
      obtain ⟨⟨arguments, hcode, hcallee, hactive⟩, hruns, hrest⟩ := h
      exact ⟨⟨arguments, hcode, hcallee, hframes.trans hactive⟩, hruns, hrest⟩

/-- Every active call was made by an instruction of the run and returns right behind it. -/
theorem Runs.within (h : Runs program output again machine calls) :
    Within program output again machine calls := by
  induction h with
  | start => rfl
  | step runs next frames ih => exact ih.of_frames_eq frames
  | call runs next code callee ih =>
      obtain ⟨rfl, -⟩ := entered_of_step next code callee
      exact ⟨⟨_, code, callee, rfl⟩, runs, ih⟩
  | ret runs next code ih =>
      obtain ⟨frame, frames, hframes, rfl⟩ := returned_of_step next code
      obtain ⟨⟨arguments, -, -, hactive⟩, -, horigin⟩ := ih
      obtain ⟨-, rfl⟩ := List.cons.inj (hframes.symm.trans hactive)
      exact horigin.of_frames_eq rfl
  | stop resumes runs next ih => exact ih.of_frames_eq (kept_of_step next).frames

/-- What an instruction, a call and a return preserve locally holds everywhere in a run. -/
theorem Runs.everywhere {Local : Machine ν → Option (Call ν) → Prop}
    (hstart : Local (Machine.start program output) none)
    (hstep : ∀ {machine machine' calls instruction}, Runs program output again machine calls →
      Local machine calls.head? → program.code[machine.pc]? = some instruction →
      Moves program machine instruction machine' → machine'.frames = machine.frames →
      Local machine' calls.head?)
    (hcall : ∀ {machine calls arguments func}, Runs program output again machine calls →
      Local machine calls.head? → program.code[machine.pc]? = some (.invoke arguments) →
      machine.callee? arguments = some (.function func) →
      checkArguments func (machine.above (machine.calleePlace arguments)) = .ok () →
      Local (machine.entered arguments func) (some ⟨machine, func⟩))
    (hret : ∀ {machine call calls arguments},
      Runs program output again machine (call :: calls) → Local machine (some call) →
      program.code[machine.pc]? = some .ret →
      Runs program output again call.origin calls → Local call.origin calls.head? →
      program.code[call.origin.pc]? = some (.invoke arguments) →
      call.origin.callee? arguments = some (.function call.func) →
      Local (machine.returned ⟨call.origin.pc + 1, call.origin.calleePlace arguments⟩
        call.origin.frames) calls.head?)
    (hstop : ∀ {machine machine' calls outcome}, again = true →
      Runs program output again machine calls → Local machine calls.head? →
      machine.step program = .stopped outcome machine' → Local machine' calls.head?)
    (h : Runs program output again machine calls) : Everywhere Local machine calls := by
  induction h with
  | start => exact hstart
  | step runs next frames ih =>
      obtain ⟨instruction, hcode, hmoves⟩ := moves_of_step next
      exact ih.of_head (hstep runs ih.head hcode hmoves frames)
  | call runs next code callee ih =>
      obtain ⟨rfl, haccepts⟩ := entered_of_step next code callee
      exact ⟨hcall runs ih.head code callee haccepts, ih⟩
  | ret runs next code ih =>
      obtain ⟨frame, frames, hframes, rfl⟩ := returned_of_step next code
      obtain ⟨⟨arguments, hinvoke, hcallee, hactive⟩, horigin, -⟩ := runs.within
      obtain ⟨rfl, rfl⟩ := List.cons.inj (hframes.symm.trans hactive)
      exact ih.2.of_head (hret runs ih.1 code horigin ih.2.head hinvoke hcallee)
  | stop resumes runs next ih => exact ih.of_head (hstop resumes runs ih.head next)

/-- An instruction that keeps the frames is no return and calls no function. -/
theorem callsAfter_of_frames_eq {active : List Func}
    (hstep : machine.step program = .running machine')
    (hframes : machine'.frames = machine.frames) :
    machine.callsAfter program active = active := by
  obtain ⟨instruction, hcode, hmoves⟩ := moves_of_step hstep
  simp only [callsAfter, hcode, hstep]
  cases hmoves with
  | load loads => cases loads <;> rfl
  | assignGlobal | setLocal | binary | pop | jumpIfZero => rfl
  | builtin callee => simp only [callee]
  | function => exact absurd hframes.symm length_ne_of_frames
  | ret active' => exact absurd (hframes.trans active') length_ne_of_frames

/-- The states of a run are among those that any number of runs lead to. -/
theorem Runs.reaches (h : Runs program output again machine calls) :
    Reaches program output machine (calls.map (·.func)) := by
  have hnext : ∀ {machine : Machine ν} {active : List Func} {progress : Progress ν},
      Reaches program output machine active → machine.step program = progress →
      Reaches program output progress.machine (machine.callsAfter program active) := by
    intro machine active progress hreaches hstep
    exact hstep ▸ hreaches.step
  induction h with
  | start => exact .start
  | step runs next frames ih =>
      have hreaches := hnext ih next
      rw [callsAfter_of_frames_eq next frames] at hreaches
      exact hreaches
  | call runs next code callee ih =>
      have hreaches := hnext ih next
      simp only [callsAfter, code, next, callee] at hreaches
      exact hreaches
  | ret runs next code ih =>
      have hreaches := hnext ih next
      simp only [callsAfter, code, next] at hreaches
      exact hreaches
  | stop resumes runs next ih =>
      have hreaches := hnext ih next
      rw [callsAfter_of_stopped next] at hreaches
      exact hreaches

/-- A run that goes on has calls that say so. -/
theorem Runs.next (h : Runs program output again machine calls)
    (hstep : machine.step program = .running machine') :
    ∃ calls', Runs program output again machine' calls' := by
  obtain ⟨instruction, hcode, hmoves⟩ := moves_of_step hstep
  cases hmoves with
  | load | assignGlobal | setLocal | binary | pop | jumpIfZero | builtin =>
      exact ⟨calls, .step h hstep rfl⟩
  | function callee => exact ⟨_, .call h hstep hcode callee⟩
  | ret active =>
      cases calls with
      | nil =>
          have hnone : machine.frames = [] := h.within
          rw [active] at hnone
          cases hnone
      | cons call calls => exact ⟨calls, .ret h hstep hcode⟩

end Machine

end StackScript
