import StackScript.Machine.Watch
import StackScript.Proofs.Representation

/-!
# The limits of a machine

The stack and the active calls stay within their limits in every state that any number of runs can
lead to, whatever the program is and whatever its natives do. An action keeps the limits whether it
succeeds or fails, so a call that runs out of stack while it sets up its locals keeps them too. A
failure is reported at the instruction that was fetched last, and the program counter is still
there.
-/

namespace StackScript

variable {ν α β : Type}

namespace Machine

/-- The stack is within its limit, and at most `depth` calls are active. -/
structure Fits (depth : Nat) (machine : Machine ν) : Prop where
  stack : machine.stack.size ≤ stackLimit
  frames : machine.frames.length ≤ depth

/-- The machine that an action leaves is within the limits, whether the action succeeded or not. -/
def Leaves (depth : Nat) : EStateM.Result Fault (Machine ν) α → Prop
  | .ok _ machine => machine.Fits depth
  | .error _ machine => machine.Fits depth

/-- From a machine within the limits the action leaves one within the limits. -/
def Keeps (depth : Nat) (action : Action ν α) : Prop :=
  ∀ machine, machine.Fits depth → Leaves depth (action machine)

variable {depth : Nat} {machine : Machine ν}

/-! ## Sequences -/

theorem Fits.take (h : machine.Fits depth) (place : Nat) (output : Sink) :
    Fits depth { machine with stack := machine.stack.take place, output } := by
  refine ⟨?_, h.frames⟩
  have hstack := h.stack
  simp only [Array.take_eq_extract, Array.size_extract]
  omega

/-- The second part of a sequence may add calls, if the first leaves room for them. -/
theorem Leaves.bind {first : Action ν α} {next : α → Action ν β} {deeper : Nat}
    (h : Leaves depth (first machine)) (hdepth : depth ≤ deeper)
    (hnext : ∀ value middle, middle.Fits depth → Leaves deeper (next value middle)) :
    Leaves deeper ((first >>= next) machine) := by
  simp only [Bind.bind, EStateM.bind]
  cases hfirst : first machine with
  | ok value middle =>
      rw [hfirst] at h
      exact hnext value middle h
  | error fault middle =>
      rw [hfirst] at h
      exact ⟨h.stack, h.frames.trans hdepth⟩

theorem Keeps.bind {first : Action ν α} {next : α → Action ν β} (h : Keeps depth first)
    (hnext : ∀ value, Keeps depth (next value)) : Keeps depth (first >>= next) :=
  fun machine hmachine => (h machine hmachine).bind (Nat.le_refl depth) hnext

theorem keeps_pure (value : α) : Keeps depth (pure value : Action ν α) :=
  fun _ h => h

theorem keeps_throw (fault : Fault) : Keeps depth (throw fault : Action ν α) :=
  fun _ h => h

/-! ## The actions instructions are made of -/

theorem keeps_push (value : Value ν) : Keeps depth (push value) := by
  intro machine h
  unfold push
  split
  next hroom =>
    refine ⟨?_, h.frames⟩
    simp only [Array.size_push]
    exact hroom
  next => exact h

theorem keeps_pop : Keeps depth (pop : Action ν (Value ν)) := by
  intro machine h
  unfold pop
  split
  next =>
    refine ⟨?_, h.frames⟩
    have hstack := h.stack
    simp only [Array.size_pop]
    omega
  next => exact h

theorem keeps_checkTag (expected : TypeTag) (value : Value ν) :
    Keeps depth (checkTag expected value) := by
  unfold checkTag
  split
  · exact keeps_pure ()
  · exact keeps_throw _

theorem keeps_popInt : Keeps depth (popInt : Action ν Int64) := by
  refine keeps_pop.bind fun value => ?_
  cases value with
  | int n => exact keeps_pure n
  | str | builtin | function => exact keeps_throw _

theorem keeps_globalSlot (program : Program ν) (name : String) :
    Keeps depth (globalSlot program name) := by
  intro machine h
  unfold globalSlot
  split
  · split <;> exact h
  · exact h

theorem keeps_localCell (slot : Nat) : Keeps depth (localCell slot : Action ν (Nat × Value ν)) := by
  intro machine h
  unfold localCell
  split
  · exact h
  · split <;> exact h

theorem keeps_loadGlobal (program : Program ν) (name : String) :
    Keeps depth (loadGlobal program name) := by
  intro machine h
  rw [loadGlobal, get_bind]
  cases machine.global? program name with
  | some value => exact keeps_push value machine h
  | none => exact h

theorem keeps_assignGlobal (program : Program ν) (name : String) :
    Keeps depth (assignGlobal program name) := by
  refine keeps_pop.bind fun value => (keeps_globalSlot program name).bind fun slot => ?_
  exact fun machine h => ⟨h.stack, h.frames⟩

theorem keeps_loadLocal (slot : Nat) (type : TypeTag) :
    Keeps depth (loadLocal slot type : Action ν Unit) := by
  refine (keeps_localCell slot).bind fun cell => ?_
  exact (keeps_checkTag type cell.2).bind fun _ => keeps_push cell.2

theorem keeps_setLocal (slot : Nat) (type : TypeTag) :
    Keeps depth (setLocal slot type : Action ν Unit) := by
  refine keeps_pop.bind fun value => (keeps_localCell slot).bind fun cell => ?_
  refine (keeps_checkTag type cell.2).bind fun _ => (keeps_checkTag type value).bind fun _ => ?_
  exact fun machine h => ⟨by simpa using h.stack, h.frames⟩

theorem keeps_binary (operator : Operator) : Keeps depth (binary operator : Action ν Unit) := by
  refine keeps_popInt.bind fun right => keeps_popInt.bind fun left => ?_
  cases operator.apply left right with
  | ok result => exact keeps_push _
  | error fault => exact keeps_throw fault

theorem keeps_pushAll (values : List (Value ν)) : Keeps depth (pushAll values) := by
  induction values with
  | nil => exact keeps_pure ()
  | cons first rest ih => exact (keeps_push first).bind fun _ => ih

/-! ## Calls and returns -/

theorem keeps_callBuiltin [Host ν] (builtin : Builtin ν) (place : Nat) :
    Keeps depth (callBuiltin builtin place) := by
  intro machine h
  simp only [callBuiltin]
  split
  all_goals exact h.take place _

/-- The arguments move down into the place of the callee, so the stack does not grow. -/
theorem size_moved_le (machine : Machine ν) (place : Nat) :
    (machine.stack.take place ++ (machine.above place).toArray).size ≤ machine.stack.size := by
  simp only [above, Array.take_eq_extract, Array.size_append, Array.size_extract, List.size_toArray,
    List.length_drop, Array.length_toList]
  omega

/-- A call adds its frame last, when all its locals are on the stack. -/
theorem keeps_callFunction (func : Func) (place : Nat) :
    Keeps callLimit (callFunction func place : Action ν Signal) := by
  intro machine h
  rw [callFunction, get_bind]
  cases checkArguments func (machine.above place) with
  | error fault => exact h
  | ok result =>
      dsimp only
      split
      next => exact h
      next hdepth =>
        -- while the locals are pushed there is room for one more call
        have hmoved : Fits (callLimit - 1)
            { machine with stack := machine.stack.take place ++ (machine.above place).toArray } :=
          ⟨(size_moved_le machine place).trans h.stack, by dsimp only; omega⟩
        have hpushed := keeps_pushAll func.extraLocals _ hmoved
        refine hpushed.bind (Nat.sub_le callLimit 1) fun _ full hfull => ?_
        have hframes := hfull.frames
        exact ⟨hfull.stack, by simp only [List.length_cons]; omega⟩

theorem keeps_invoke [Host ν] (arguments : Nat) :
    Keeps callLimit (invoke arguments : Action ν Signal) := by
  intro machine h
  rw [invoke, get_bind]
  cases machine.callee? arguments with
  | none => exact h
  | some value =>
      cases value with
      | builtin builtin => exact keeps_callBuiltin builtin _ machine h
      | function func => exact keeps_callFunction func _ machine h
      | int | str => exact h

theorem keeps_leave : Keeps depth (leave : Action ν Signal) := by
  intro machine h
  unfold leave
  split
  next => exact h
  next frame frames hactive =>
    have hframes := h.frames
    rw [hactive, List.length_cons] at hframes
    exact ⟨(h.take frame.base machine.output).stack, Nat.le_of_succ_le hframes⟩

/-! ## Steps and runs -/

section Runs

variable [Host ν] {program : Program ν} {output : Sink} {calls : List Func}

/-- Every instruction keeps the limits, whether it succeeds or fails. -/
theorem keeps_perform (program : Program ν) (instruction : Instruction) :
    Keeps callLimit (perform program instruction) := by
  cases instruction with
  | push literal => exact (keeps_push _).bind fun _ => keeps_pure _
  | loadGlobal name => exact (keeps_loadGlobal program name).bind fun _ => keeps_pure _
  | assignGlobal name => exact (keeps_assignGlobal program name).bind fun _ => keeps_pure _
  | loadLocal slot type => exact (keeps_loadLocal slot type).bind fun _ => keeps_pure _
  | setLocal slot type => exact (keeps_setLocal slot type).bind fun _ => keeps_pure _
  | binary operator => exact (keeps_binary operator).bind fun _ => keeps_pure _
  | invoke arguments => exact keeps_invoke arguments
  | ret => exact keeps_leave
  | jumpIfZero target =>
      refine keeps_popInt.bind fun test => ?_
      split <;> exact keeps_pure _
  | pop => exact keeps_pop.bind fun _ => keeps_pure _

theorem Fits.step (h : machine.Fits callLimit) (program : Program ν) :
    (machine.step program).machine.Fits callLimit := by
  unfold Machine.step
  split
  next => exact h
  next instruction hcode =>
    have hleaves := keeps_perform program instruction machine h
    unfold advance
    split
    all_goals
      next hperform =>
        rw [hperform] at hleaves
        exact ⟨hleaves.stack, hleaves.frames⟩

theorem Reaches.fits (h : Reaches program output machine calls) :
    machine.Fits callLimit := by
  induction h with
  | start => exact ⟨Nat.zero_le _, Nat.zero_le _⟩
  | step _ ih => exact ih.step program

/-- The states of a run from a state that runs lead to are such states too. -/
theorem Reaches.run (h : Reaches program output machine calls) (fuel : Nat) :
    ∃ calls', Reaches program output (machine.run program fuel).machine calls' := by
  induction fuel generalizing machine calls with
  | zero => exact ⟨calls, h⟩
  | succ fuel ih =>
      have hnext := h.step
      unfold Machine.run
      cases hstep : machine.step program with
      | running next =>
          rw [hstep] at hnext
          exact ih hnext
      | stopped outcome next =>
          rw [hstep] at hnext
          exact ⟨_, hnext⟩

/-! ## The instruction fetched last -/

/-- The instruction that a run fetched last, with the machine at that moment. -/
def lastSight (program : Program ν) (fuel : Nat) (machine : Machine ν) : Option (Sight ν) :=
  (machine.watch program (fun _ sight => some sight) fuel none).1

/-- A run that fails does so in the instruction that it fetched last. -/
theorem exists_sight_of_failed {fuel : Nat} {error : RuntimeError} {after : Machine ν}
    (h : machine.run program fuel = .stopped (.failed error) after) :
    ∃ sight, machine.lastSight program fuel = some sight ∧
      program.code[sight.before.pc]? = some sight.instruction ∧
      sight.before.step program = .stopped (.failed error) after := by
  -- what was seen before the run does not matter: a run that fails has fetched an instruction
  have hwatch : ∀ seen : Option (Sight ν), ∃ sight,
      (machine.watch program (fun _ sight => some sight) fuel seen).1 = some sight ∧
        program.code[sight.before.pc]? = some sight.instruction ∧
        sight.before.step program = .stopped (.failed error) after := by
    induction fuel generalizing machine with
    | zero => cases h
    | succ fuel ih =>
        intro seen
        unfold Machine.run at h
        unfold watch
        cases hcode : program.code[machine.pc]? with
        | none =>
            simp only [Machine.step, hcode] at h
            cases h
        | some instruction =>
            have hstep : machine.step program = machine.advance program instruction := by
              simp only [Machine.step, hcode]
            rw [hstep] at h
            cases hadvance : machine.advance program instruction with
            | running next =>
                rw [hadvance] at h
                simp only [hadvance]
                exact ih h _
            | stopped outcome next =>
                rw [hadvance] at h
                cases h
                refine ⟨⟨machine, instruction, .stopped (.failed error) after⟩, ?_, hcode,
                  hstep.trans hadvance⟩
                simp only [hadvance]
  exact hwatch none

/-- Whatever the program and its natives are, no state of any number of runs has more values on the
stack or more active calls than there may be, or more or fewer memory cells than at the start. A run
that fails reports the instruction that it fetched last, and its program counter has not moved since
then. -/
theorem limits_of_reaches (hreaches : Reaches program output machine calls) (fuel : Nat) :
    (machine.run program fuel).machine.stack.size ≤ 4096 ∧
    (machine.run program fuel).machine.frames.length ≤ 1024 ∧
    (machine.run program fuel).machine.memory.size = program.memory.size ∧
    ∀ error after, machine.run program fuel = .stopped (.failed error) after →
      ∃ sight, machine.lastSight program fuel = some sight ∧
        program.code[sight.before.pc]? = some sight.instruction ∧
        after.pc = sight.before.pc ∧ error.index = after.pc := by
  obtain ⟨calls', hrun⟩ := hreaches.run fuel
  refine ⟨hrun.fits.stack, hrun.fits.frames, hrun.size_memory, ?_⟩
  intro error after hfailed
  obtain ⟨sight, hlast, hcode, hstep⟩ := exists_sight_of_failed hfailed
  have hpc := (kept_of_step hstep).pc
  have hindex := (fails_of_step hstep).1
  exact ⟨sight, hlast, hcode, hpc, hindex.trans hpc.symm⟩

end Runs

/-- A division by zero takes its operands with it, so it fails in another way when it is run again,
and the failure is reported at the same place. -/
theorem limits_after_second_failure :
    ∃ (program : Program Native) (machine : Machine Native),
      Reaches program {} machine [] ∧
      machine.run program 1 = .stopped (.failed ⟨2, .stackUnderflow⟩) machine ∧
      machine.stack.size ≤ 4096 ∧
      ∃ sight, machine.lastSight program 1 = some sight ∧
        program.code[sight.before.pc]? = some sight.instruction ∧
        machine.pc = sight.before.pc ∧ 2 = machine.pc := by
  let program : Program Native :=
    { code := #[.push (.int 1), .push (.int 0), .binary .div] }
  let machine : Machine Native := { pc := 2, memory := #[] }
  have hreaches : Reaches program {} machine [] := .step (.step (.step .start))
  have hrun : machine.run program 1 = .stopped (.failed ⟨2, .stackUnderflow⟩) machine := by cbv
  obtain ⟨hstack, -, -, hfailed⟩ := limits_of_reaches hreaches 1
  rw [hrun] at hstack
  exact ⟨program, machine, hreaches, hrun, hstack, hfailed _ _ hrun⟩

end Machine

end StackScript
