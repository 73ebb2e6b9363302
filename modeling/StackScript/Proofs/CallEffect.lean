import StackScript.Proofs.LocalTypes
import StackScript.Proofs.Operands

/-!
# What a call leaves of the stack

A function returns right behind the call that led to it, with a part of the stack that the caller
had below the callee. It is all of that part unless the function took more values than were its own:
a call that leaves no value can stand where a value is needed, and then the value is taken from the
caller. In no case is there anything on the stack that the caller did not put there.
-/

namespace StackScript

variable {ν : Type}

namespace Machine

variable {program : Program ν} {bodies : List Compiled} {main : Block} {output : Sink}
  {again : Bool} {machine machine' : Machine ν} {call : Call ν}

/-- Up to a mark, what is below the innermost call is as the caller left it. Above the mark there
are no more operands than are counted there, or than the next instruction takes. -/
structure Marked (program : Program ν) (machine : Machine ν) (call : Call ν) (mark : Nat) :
    Prop where
  low : mark ≤ machine.stack.size
  high : ∀ instruction, program.code[machine.pc]? = some instruction →
    machine.stack.size ≤ mark + max (program.operandsAt machine.pc) instruction.takes
  below : ∀ frame frames, machine.frames = frame :: frames → ∀ index, index < mark →
    index < frame.base → machine.stack[index]? = call.origin.stack[index]?

/-- The machine is about to call a value that cannot be called, and never gets any further. -/
def Stuck (program : Program ν) (machine : Machine ν) : Prop :=
  ∃ arguments value, program.code[machine.pc]? = some (.invoke arguments) ∧
    machine.callee? arguments = some value ∧ value.tag.isDeclarable = true

/-- What is known of the stack inside a call. -/
def Preserves (program : Program ν) (machine : Machine ν) : Option (Call ν) → Prop
  | none => True
  | some call => (∃ mark, machine.Marked program call mark) ∨ machine.Stuck program

theorem Stuck.ne_ret (h : machine.Stuck program) : program.code[machine.pc]? ≠ some .ret := by
  obtain ⟨arguments, value, hcode, -⟩ := h
  simp [hcode]

theorem Stuck.not_calls (h : machine.Stuck program) {arguments : Nat} {func : Func}
    (hcode : program.code[machine.pc]? = some (.invoke arguments)) :
    machine.callee? arguments ≠ some (.function func) := by
  obtain ⟨arguments', value, hinvoke, hcallee, htag⟩ := h
  obtain ⟨⟩ := hinvoke.symm.trans hcode
  intro hfunc
  obtain rfl := Option.some.inj (hcallee.symm.trans hfunc)
  cases htag

/-- When a call starts, all that is below the callee is still there. -/
theorem marked_entered (arguments : Nat) (func : Func) :
    (machine.entered arguments func).Marked program ⟨machine, func⟩
      (machine.entered arguments func).stack.size := by
  refine ⟨Nat.le_refl _, ?_, ?_⟩
  · intro instruction _
    omega
  · intro frame frames hframe index _ hbase
    obtain ⟨rfl, -⟩ := List.cons.inj hframe
    exact getElem?_entered_below hbase

theorem take_eq_take_iff {values : Array (Value ν)} {count other : Nat}
    (hcount : count ≤ values.size) :
    values.take (min count other) = values.take count ↔ count ≤ other := by
  constructor
  · intro h
    have hsize := congrArg Array.size h
    simp at hsize
    omega
  · intro h
    rw [Nat.min_eq_left h]

/-- Before a return, what is left of the stack below the function is as the caller left it. -/
theorem Marked.below_of_ret (h : program.Layout bodies main) {mark : Nat}
    (hmarked : machine.Marked program call mark)
    (hcode : program.code[machine.pc]? = some .ret) {frame : Frame} {frames : List Frame}
    (hframes : machine.frames = frame :: frames) {index : Nat} (hindex : index < frame.base)
    (hlt : index < machine.stack.size) : machine.stack[index]? = call.origin.stack[index]? := by
  have hnone := (h.level hcode).2 rfl
  have hhigh := hmarked.high _ hcode
  simp only [hnone, Instruction.takes] at hhigh
  exact hmarked.below frame frames hframes index (by omega) hindex

/-- A return takes the caller's mark down to what the function has left. -/
theorem Marked.returned {origin : Machine ν} {arguments mark : Nat}
    (horigin : origin.Marked program call mark)
    (hcode : program.code[origin.pc]? = some (.invoke arguments))
    (hbelow : ∀ index, index < origin.calleePlace arguments → index < machine.stack.size →
      machine.stack[index]? = origin.stack[index]?) :
    (machine.returned ⟨origin.pc + 1, origin.calleePlace arguments⟩ origin.frames).Marked program
      call (min mark (min (origin.calleePlace arguments) machine.stack.size)) := by
  have hsize : (machine.stack.take (origin.calleePlace arguments)).size =
      min (origin.calleePlace arguments) machine.stack.size := by simp
  refine ⟨?_, ?_, ?_⟩
  · simp only [Machine.returned, hsize]
    omega
  · intro instruction _
    have hhigh := horigin.high _ hcode
    have hoperands := Program.operandsAt_succ hcode
    simp only [Instruction.operandsAfter, reduceCtorEq, if_false, Instruction.takes,
      Instruction.gives] at hoperands hhigh
    have hplace : origin.calleePlace arguments = origin.stack.size - (arguments + 1) := rfl
    simp only [Machine.returned, hsize, hoperands]
    omega
  · intro frame frames hframes index hindex hbase
    simp only [Machine.returned]
    rw [getElem?_take_of_lt (by omega), hbelow index (by omega) (by omega)]
    exact horigin.below frame frames hframes index (by omega) hbase

/-- The stack of the second machine is the lower part of that of the first. -/
def Lowers (machine machine' : Machine ν) : Prop :=
  machine'.stack.size ≤ machine.stack.size ∧
    ∀ index, index < machine'.stack.size → machine'.stack[index]? = machine.stack[index]?

theorem lowers_popped (machine : Machine ν) : machine.Lowers machine.popped := by
  refine ⟨by simp [popped], ?_⟩
  intro index hindex
  simp only [popped, Array.size_pop] at hindex ⊢
  exact getElem?_pop_of_lt hindex

theorem Lowers.trans {middle : Machine ν} (h : machine.Lowers middle)
    (h' : middle.Lowers machine') : machine.Lowers machine' := by
  refine ⟨Nat.le_trans h'.1 h.1, ?_⟩
  intro index hindex
  rw [h'.2 index hindex, h.2 index (Nat.lt_of_lt_of_le hindex h'.1)]

theorem lowers_take (machine : Machine ν) (place : Nat) (output : Sink) :
    machine.Lowers { machine with stack := machine.stack.take place, output } := by
  refine ⟨?_, ?_⟩
  · simp only [Array.take_eq_extract, Array.size_extract]
    omega
  intro index hindex
  simp only [Array.take_eq_extract, Array.size_extract] at hindex
  exact getElem?_take_of_lt (by omega)

/-- A machine that stops with less on its stack than it had is still marked. -/
theorem Marked.stopped {mark : Nat} (hmarked : machine.Marked program call mark)
    (hpc : machine'.pc = machine.pc) (hframes : machine'.frames = machine.frames)
    (hlowers : machine.Lowers machine') :
    machine'.Marked program call (min mark machine'.stack.size) := by
  obtain ⟨hsize, hkeeps⟩ := hlowers
  have hlow := hmarked.low
  refine ⟨Nat.min_le_right _ _, ?_, ?_⟩
  · intro instruction hcode
    rw [hpc] at hcode ⊢
    have hhigh := hmarked.high instruction hcode
    omega
  · intro frame frames hframe index hindex hbase
    rw [hframes] at hframe
    rw [hkeeps index (by omega)]
    exact hmarked.below frame frames hframe index (by omega) hbase

/-- The machine after a call whose locals overflow the stack. -/
def overfull (machine : Machine ν) (arguments : Nat) (pushed : List (Value ν)) : Machine ν :=
  let place := machine.calleePlace arguments
  { machine with
    stack := machine.stack.take place ++ (machine.above place ++ pushed).toArray }

theorem size_overfull {arguments : Nat} (hlt : arguments < machine.stack.size)
    (pushed : List (Value ν)) :
    (machine.overfull arguments pushed).stack.size =
      machine.calleePlace arguments + arguments + pushed.length := by
  simp [overfull, calleePlace, above]
  omega

/-- If not even one local fits, the arguments stand where the callee was. -/
theorem Marked.overfull {arguments mark : Nat} (hmarked : machine.Marked program call mark)
    (hcode : program.code[machine.pc]? = some (.invoke arguments))
    (hlt : arguments < machine.stack.size) :
    (machine.overfull arguments []).Marked program call
      (min mark (machine.calleePlace arguments)) := by
  have hsize := size_overfull hlt ([] : List (Value ν))
  have hlow := hmarked.low
  have hplace : machine.calleePlace arguments = machine.stack.size - (arguments + 1) := rfl
  simp only [List.length_nil, Nat.add_zero] at hsize
  refine ⟨by omega, ?_, ?_⟩
  · intro instruction hfound
    obtain rfl := Option.some.inj (hcode.symm.trans hfound)
    have hhigh := hmarked.high _ hcode
    simp only [Instruction.takes] at hhigh ⊢
    have hpc : (machine.overfull arguments []).pc = machine.pc := rfl
    rw [hsize, hpc]
    omega
  · intro frame frames hframe index hindex hbase
    have hbelow : index < (machine.stack.take (machine.calleePlace arguments)).size := by
      rw [size_stack_take_calleePlace]
      omega
    simp only [Machine.overfull]
    rw [Array.getElem?_append_left hbelow, getElem?_take_of_lt (by omega)]
    exact hmarked.below frame frames hframe index (by omega) hbase

/-- If a local fits, a value that cannot be called stands where the callee is looked for. -/
theorem stuck_overfull {compiled : Compiled} {arguments : Nat} {pushed left : List (Value ν)}
    (htyped : compiled.IsTyped) (hcode : program.code[machine.pc]? = some (.invoke arguments))
    (hlt : arguments < machine.stack.size)
    (haccepts : checkArguments compiled.func (machine.above (machine.calleePlace arguments)) =
      .ok ())
    (hlocals : compiled.func.extraLocals = pushed ++ left) (hpushed : pushed ≠ []) :
    (machine.overfull arguments pushed).Stuck program := by
  let place := machine.calleePlace arguments
  have hsize := size_overfull hlt pushed
  have hpos := List.length_pos_iff.2 hpushed
  have hlower : (machine.stack.take place).size = place := size_stack_take_calleePlace machine _
  have hlength : (machine.above place ++ pushed).length = arguments + pushed.length := by
    simp [place, calleePlace, above]
    omega
  have hindex : pushed.length - 1 < (machine.above place ++ pushed).length := by omega
  refine ⟨arguments, (machine.above place ++ pushed)[pushed.length - 1], hcode, ?_, ?_⟩
  · have hplace : (machine.overfull arguments pushed).stack.size - (arguments + 1) =
        (machine.stack.take place).size + (pushed.length - 1) := by
      rw [hsize, hlower]
      omega
    have hstack : (machine.overfull arguments pushed).stack =
        machine.stack.take place ++ (machine.above place ++ pushed).toArray := rfl
    rw [callee?, if_pos (by omega), hplace, hstack,
      Array.getElem?_append_right (Nat.le_add_right _ _), Nat.add_sub_cancel_left,
      List.getElem?_toArray, List.getElem?_eq_getElem hindex]
  · rcases List.mem_append.1 (List.getElem_mem hindex) with hmem | hmem
    · apply htyped.declarable_params
      rw [← tags_of_checkArguments haccepts]
      exact List.mem_map_of_mem hmem
    · have hextra := hlocals ▸ List.mem_append_left left hmem
      obtain ⟨entry, -, hinitial⟩ := List.mem_map.1 hextra
      rw [← hinitial]
      exact Value.isDeclarable_initial entry.type

variable [Host ν]

/-! ## Machines that are stuck -/

theorem Stuck.not_moves (h : machine.Stuck program) {instruction : Instruction}
    (hcode : program.code[machine.pc]? = some instruction) :
    ¬ Moves program machine instruction machine' := by
  obtain ⟨arguments, value, hinvoke, hcallee, htag⟩ := h
  obtain rfl := Option.some.inj (hinvoke.symm.trans hcode)
  intro hmoves
  cases hmoves with
  | load loads => cases loads
  | builtin callee | function callee =>
      obtain rfl := Option.some.inj (hcallee.symm.trans callee)
      cases htag

theorem Stuck.step {outcome : Outcome} (h : machine.Stuck program)
    (hstep : machine.step program = .stopped outcome machine') : machine'.Stuck program := by
  obtain ⟨arguments, value, hinvoke, hcallee, htag⟩ := h
  have hsame : machine' = machine := by
    cases outcome with
    | completed => exact (completed_of_step hstep).2
    | halted name =>
        obtain ⟨instruction, hcode, hhalts⟩ := halts_of_step hstep
        obtain rfl := Option.some.inj (hinvoke.symm.trans hcode)
        cases hhalts with
        | builtin callee =>
            obtain rfl := Option.some.inj (hcallee.symm.trans callee)
            cases htag
    | failed error =>
        obtain ⟨-, instruction, hcode, hfails⟩ := fails_of_step hstep
        obtain rfl := Option.some.inj (hinvoke.symm.trans hcode)
        generalize error.fault = fault at hfails
        cases hfails with
        | full loads => cases loads
        | empty pops => cases pops
        | calleeMissing | notInvocable | arity | argument | tooDeep => rfl
        | native callee | localsFull callee =>
            obtain rfl := Option.some.inj (hcallee.symm.trans callee)
            cases htag
  subst hsame
  exact ⟨arguments, value, hinvoke, hcallee, htag⟩

/-! ## Steps -/

theorem Marked.moves (h : program.Layout bodies main) {mark : Nat} {instruction : Instruction}
    (hmarked : machine.Marked program call mark)
    (hcode : program.code[machine.pc]? = some instruction)
    (hmoves : Moves program machine instruction machine')
    (hframes : machine'.frames = machine.frames) :
    machine'.Marked program call (min mark (machine.stack.size - instruction.takes)) := by
  obtain ⟨htakes, hsize, -⟩ := hmoves.stack hframes
  have hoperands := hmoves.operandsAt_pc hframes hcode (h.level hcode)
  have hhigh := hmarked.high instruction hcode
  have hlow := hmarked.low
  refine ⟨by omega, ?_, ?_⟩
  · intro next _
    rw [hsize, hoperands]
    omega
  · intro frame frames hframe index hindex hbase
    rw [hframes] at hframe
    rw [hmoves.stack_below hframes hframe hbase (by omega)]
    exact hmarked.below frame frames hframe index (by omega) hbase

/-! ## Machines that stop -/

/-- An instruction that fails takes values away, unless it is a call whose locals overflow the
stack. -/
theorem Fails.lowers {instruction : Instruction} {fault : Fault}
    (h : Fails program machine instruction fault machine') :
    machine.Lowers machine' ∨
      ∃ arguments func pushed left, instruction = .invoke arguments ∧
        machine.callee? arguments = some (.function func) ∧
        checkArguments func (machine.above (machine.calleePlace arguments)) = .ok () ∧
        func.extraLocals = pushed ++ left ∧ machine' = machine.overfull arguments pushed := by
  cases h with
  | full | empty | loadUnresolved | loadNoFrame | loadOutOfRange | loadMismatch | calleeMissing
  | notInvocable | arity | argument | tooDeep | outside =>
      exact .inl ⟨Nat.le_refl _, fun _ _ => rfl⟩
  | assignUnresolved | setNoFrame | setOutOfRange | setHeldMismatch | setNewMismatch
  | rightMismatch | leftMissing | testMismatch => exact .inl (lowers_popped machine)
  | leftMismatch | divisionByZero | resultFull =>
      exact .inl ((lowers_popped machine).trans (lowers_popped machine.popped))
  | native => exact .inl (lowers_take machine _ _)
  | localsFull callee accepts locals remain =>
      exact .inr ⟨_, _, _, _, rfl, callee, accepts, locals, rfl⟩

/-- A machine that stops inside a call can go on, or is stuck. -/
theorem Preserves.stop (h : program.Layout bodies main)
    (htyped : ∀ compiled ∈ bodies, compiled.IsTyped) {calls : List (Call ν)} {outcome : Outcome}
    (hruns : Runs program output again machine (call :: calls))
    (hpreserves : machine.Preserves program (some call))
    (hstep : machine.step program = .stopped outcome machine') :
    machine'.Preserves program (some call) := by
  have hkept := kept_of_step hstep
  rcases hpreserves with ⟨mark, hmarked⟩ | hstuck
  · have hlowers : machine.Lowers machine' → machine'.Preserves program (some call) := by
      intro hlowers
      exact .inl ⟨_, hmarked.stopped hkept.pc hkept.frames hlowers⟩
    cases outcome with
    | completed =>
        obtain ⟨-, rfl⟩ := completed_of_step hstep
        exact .inl ⟨mark, hmarked⟩
    | halted name =>
        obtain ⟨instruction, hcode, hhalts⟩ := halts_of_step hstep
        cases hhalts
        exact hlowers (lowers_take machine _ _)
    | failed error =>
        obtain ⟨-, instruction, hcode, hfails⟩ := fails_of_step hstep
        rcases hfails.lowers with hlower |
          ⟨arguments, func, pushed, left, rfl, hcallee, haccepts, hlocals, rfl⟩
        · exact hlowers hlower
        obtain ⟨hlt, hvalue⟩ := callee?_eq_some hcallee
        by_cases hpushed : pushed = []
        · subst hpushed
          exact .inl ⟨_, hmarked.overfull hcode hlt⟩
        · have hknown := (hruns.reaches.sound h).known func (.inl hvalue)
          obtain ⟨compiled, hmem, rfl⟩ := h.mem_functions.1 hknown
          exact .inr (stuck_overfull (htyped compiled hmem) hcode hlt haccepts hlocals hpushed)
  · exact .inr (hstuck.step hstep)

/-! ## Runs -/

variable {calls : List (Call ν)}

/-- In every state of a run, all active calls preserve what is below them. -/
theorem Runs.preserves (h : program.Layout bodies main)
    (htyped : ∀ compiled ∈ bodies, compiled.IsTyped)
    (hruns : Runs program output again machine calls) :
    Everywhere (Preserves program) machine calls := by
  apply hruns.everywhere
  · trivial
  · intro machine machine' calls instruction hruns hlocal hcode hmoves hframes
    cases calls with
    | nil => trivial
    | cons call calls =>
        rcases hlocal with ⟨mark, hmarked⟩ | hstuck
        · exact .inl ⟨_, hmarked.moves h hcode hmoves hframes⟩
        · exact absurd hmoves (hstuck.not_moves hcode)
  · intro machine calls arguments func hruns hlocal hcode hcallee haccepts
    exact .inl ⟨_, marked_entered arguments func⟩
  · intro machine call calls arguments hruns hlocal hcode horigin houter hinvoke hcallee
    cases calls with
    | nil => trivial
    | cons outer calls =>
        rcases hlocal with ⟨mark, hmarked⟩ | hstuck
        · rcases houter with ⟨mark', hmarked'⟩ | hstuck
          · refine .inl ⟨_, hmarked'.returned hinvoke ?_⟩
            intro index hindex hlt
            obtain ⟨⟨arguments', hinvoke', -, hframes⟩, -⟩ := hruns.within
            obtain ⟨⟩ := hinvoke.symm.trans hinvoke'
            exact hmarked.below_of_ret h hcode hframes hindex hlt
          · exact absurd hcallee (hstuck.not_calls hinvoke)
        · exact absurd hcode hstuck.ne_ret
  · intro machine machine' calls outcome _ hruns hlocal hstep
    cases calls with
    | nil => trivial
    | cons call calls => exact Preserves.stop h htyped hruns hlocal hstep

theorem step_ret {frame : Frame} {frames : List Frame}
    (hcode : program.code[machine.pc]? = some .ret) (hframes : machine.frames = frame :: frames) :
    machine.step program = .running (machine.returned frame frames) := by
  simp [step, hcode, advance, perform, leave, hframes, returned]

/-- A return goes on behind the call that led to the function and leaves of the stack what the
caller had below the callee, as far as the function has not taken it. -/
theorem stack_after_return {natives : List (Builtin ν)} {source : String}
    {events events' : Array Event}
    (hcompile : Script.compile natives source events = .ok program events')
    (hruns : Runs program output true machine (call :: calls))
    (hret : program.code[machine.pc]? = some .ret) :
    ∃ arguments after, program.code[call.origin.pc]? = some (.invoke arguments) ∧
      call.origin.callee? arguments = some (.function call.func) ∧
      machine.step program = .running after ∧
      after.pc = call.origin.pc + 1 ∧
      after.frames = call.origin.frames ∧
      after.stack =
        call.origin.stack.take (min (call.origin.calleePlace arguments) machine.stack.size) ∧
      (after.stack = call.origin.stack.take (call.origin.calleePlace arguments) ↔
        call.origin.calleePlace arguments ≤ machine.stack.size) := by
  obtain ⟨tree, _, bodies, -, hlayout, htyped⟩ := Script.layout_of_compile hcompile
  obtain ⟨⟨arguments, hinvoke, hcallee, hframes⟩, -⟩ := hruns.within
  have hpreserves := (hruns.preserves hlayout fun compiled hmem => (htyped compiled hmem).1).1
  obtain ⟨mark, hmarked⟩ := hpreserves.resolve_right fun hstuck => hstuck.ne_ret hret
  have hstack : machine.stack.take (call.origin.calleePlace arguments) =
      call.origin.stack.take (min (call.origin.calleePlace arguments) machine.stack.size) := by
    apply Array.ext_getElem?
    intro index
    rw [getElem?_take, getElem?_take]
    by_cases hindex : index < call.origin.calleePlace arguments
    · by_cases hlt : index < machine.stack.size
      · rw [if_pos hindex, if_pos (by omega)]
        exact hmarked.below_of_ret hlayout hret hframes hindex hlt
      · rw [if_pos hindex, if_neg (by omega), Array.getElem?_eq_none (Nat.le_of_not_lt hlt)]
    · rw [if_neg hindex, if_neg (by omega)]
  refine ⟨arguments, _, hinvoke, hcallee, step_ret hret hframes, rfl, rfl, hstack, ?_⟩
  simp only [returned, hstack]
  exact take_eq_take_iff (Nat.sub_le _ _)

theorem stack_after_return_in_arguments :
    ∃ (program : Program Native) (machine after : Machine Native) (call : Call Native)
      (events : Array Event),
      Script.compile Native.builtins "func f() \x7b\x7d print_one(7, f())" #[] =
        .ok program events ∧
      Runs program {} true machine [call] ∧ program.code[machine.pc]? = some .ret ∧
      call.origin.stack.size = 3 ∧ machine.step program = .running after ∧
      after.pc = call.origin.pc + 1 ∧ after.stack = call.origin.stack.take 2 := by
  let func : Func := ⟨"f", [], none, 0, {}⟩
  let printOne : Value Native := .builtin Native.printOne.builtin
  let program : Program Native :=
    { code := #[.ret, .loadGlobal "print_one", .push (.int 7), .loadGlobal "f", .invoke 0,
        .invoke 2]
      globals := ⟨[⟨"print_one", .builtin⟩, ⟨"print_all", .builtin⟩, ⟨"print_sum", .builtin⟩,
        ⟨"done", .builtin⟩, ⟨"f", .function⟩]⟩
      memory := #[printOne, .builtin Native.printAll.builtin, .builtin Native.printSum.builtin,
        .builtin Native.done.builtin, .function func]
      entry := 1 }
  let state (pc : Nat) (stack : Array (Value Native)) (frames : List Frame) : Machine Native :=
    { pc, stack, frames, memory := program.memory }
  let origin := state 4 #[printOne, .int 7, .function func] []
  let inside := state 0 #[printOne, .int 7] [⟨5, 2⟩]
  have hcompile : Script.compile Native.builtins "func f() \x7b\x7d print_one(7, f())" #[] =
      .ok program #[.functionCompiled "f" 0 1 0, .mainCompiled 1 6] := by cbv
  have hfirst : Runs program {} true (state 2 #[printOne] []) [] := .step .start rfl rfl
  have hsecond : Runs program {} true (state 3 #[printOne, .int 7] []) [] :=
    .step hfirst rfl rfl
  have horigin : Runs program {} true origin [] := .step hsecond rfl rfl
  have hinside : Runs program {} true inside [⟨origin, func⟩] := .call horigin rfl rfl rfl
  obtain ⟨arguments, after, hinvoke, -, hstep, hpc, -, -, hwhole⟩ :=
    stack_after_return hcompile hinside rfl
  obtain rfl : arguments = 0 := by
    cases hinvoke
    rfl
  exact ⟨program, inside, after, ⟨origin, func⟩, _, hcompile, hinside, rfl, rfl, hstep, hpc,
    hwhole.2 (Nat.le_refl 2)⟩

/-- A function whose test is a call that leaves no value takes a value of its caller. -/
theorem return_without_operand_of_caller :
    ∃ (program : Program Native) (machine after : Machine Native) (call : Call Native)
      (events : Array Event),
      Script.compile Native.builtins
        ("func g() \x7b\x7d func f() \x7b if g() \x7b\x7d \x7d " ++
          "print_one(7, f(), done())") #[] = .ok program events ∧
      Runs program {} false machine [call] ∧ program.code[machine.pc]? = some .ret ∧
      program.code[call.origin.pc]? = some (.invoke 0) ∧
      call.origin.stack.size = 3 ∧ machine.step program = .running after ∧
      after.stack = call.origin.stack.take 1 := by
  let g : Func := ⟨"g", [], none, 0, {}⟩
  let f : Func := ⟨"f", [], none, 1, {}⟩
  let printOne : Value Native := .builtin Native.printOne.builtin
  let program : Program Native :=
    { code := #[.ret, .loadGlobal "g", .invoke 0, .jumpIfZero 4, .ret, .loadGlobal "print_one",
        .push (.int 7), .loadGlobal "f", .invoke 0, .loadGlobal "done", .invoke 0, .invoke 3]
      globals := ⟨[⟨"print_one", .builtin⟩, ⟨"print_all", .builtin⟩, ⟨"print_sum", .builtin⟩,
        ⟨"done", .builtin⟩, ⟨"g", .function⟩, ⟨"f", .function⟩]⟩
      memory := #[printOne, .builtin Native.printAll.builtin, .builtin Native.printSum.builtin,
        .builtin Native.done.builtin, .function g, .function f]
      entry := 5 }
  let state (pc : Nat) (stack : Array (Value Native)) (frames : List Frame) : Machine Native :=
    { pc, stack, frames, memory := program.memory }
  let origin := state 8 #[printOne, .int 7, .function f] []
  have hcompile : Script.compile Native.builtins
      ("func g() \x7b\x7d func f() \x7b if g() \x7b\x7d \x7d " ++
        "print_one(7, f(), done())") #[] =
      .ok program #[.functionCompiled "g" 0 1 0, .jumpSettled 3 4, .functionCompiled "f" 1 5 0,
        .mainCompiled 5 12] := by cbv
  have hfirst : Runs program {} false (state 6 #[printOne] []) [] := .step .start rfl rfl
  have hsecond : Runs program {} false (state 7 #[printOne, .int 7] []) [] :=
    .step hfirst rfl rfl
  have horigin : Runs program {} false origin [] := .step hsecond rfl rfl
  have hentered : Runs program {} false (state 1 #[printOne, .int 7] [⟨9, 2⟩]) [⟨origin, f⟩] :=
    .call horigin rfl rfl rfl
  have hcallee : Runs program {} false (state 2 #[printOne, .int 7, .function g] [⟨9, 2⟩])
      [⟨origin, f⟩] := .step hentered rfl rfl
  have hnested : Runs program {} false (state 0 #[printOne, .int 7] [⟨3, 2⟩, ⟨9, 2⟩])
      [⟨_, g⟩, ⟨origin, f⟩] := .call hcallee rfl rfl rfl
  have htest : Runs program {} false (state 3 #[printOne, .int 7] [⟨9, 2⟩]) [⟨origin, f⟩] :=
    .ret hnested rfl rfl
  -- the test takes the seven that the top-level code has pushed
  have hlast : Runs program {} false (state 4 #[printOne] [⟨9, 2⟩]) [⟨origin, f⟩] :=
    .step htest rfl rfl
  exact ⟨program, _, state 9 #[printOne] [], _, _, hcompile, hlast, rfl, rfl, rfl, rfl, rfl⟩

end Machine

end StackScript
