import StackScript.Native
import StackScript.Proofs.ActiveCalls
import StackScript.Proofs.Limits
import StackScript.Proofs.LocalTypes

/-!
# Which locals can be assigned

An assignment to a local asks for the declared type twice: of the value and of what the local holds.
So as long as the slots of a call are written by assignments only, each holds a value of the type
it started with. Parameters start with values of their types, and so do further integers and
strings. A further local of a callable type starts as an integer, and can therefore never be
assigned.
-/

namespace StackScript

variable {ν : Type}

/-- A variable starts with a value of its type if a script can declare it, else as an integer. -/
theorem Value.tag_initial_eq (type : TypeTag) :
    (Value.initial type : Value ν).tag = if type.isDeclarable then type else .int := by
  cases type <;> rfl

/-- Whether a local holds a value of its type when a call starts: a parameter does, and so does
every other local that a script can declare. -/
def Func.StartsTyped (func : Func) (slot : Nat) (type : TypeTag) : Prop :=
  slot < func.arity ∨ type.isDeclarable = true

instance Func.decidableStartsTyped (func : Func) (slot : Nat) (type : TypeTag) :
    Decidable (func.StartsTyped slot type) :=
  inferInstanceAs (Decidable (_ ∨ _))

/-- The type of what a local holds when a call starts. -/
def Func.heldType (func : Func) (slot : Nat) (type : TypeTag) : TypeTag :=
  if func.StartsTyped slot type then type else .int

/-- The parameters of a compiled function are its first locals. -/
theorem Builder.params_of_function {builder builder' : Builder ν} {signature : Signature}
    {body : String} {func : Func} {events events' : Array Event}
    (h : builder.function signature body events = .ok (func, builder') events') :
    func.params = (func.locals.entries.take func.arity).map (·.type) := by
  obtain ⟨_, _, tree, locals, _, -, htable, hblock, rfl, -⟩ := functionOfItems_ok h
  exact (Source.reads_of_block htable hblock builder.code.size).params

namespace Machine

/-- What the slots of a call hold at its start. -/
theorem tag_of_accepted {func : Func} {arguments : List (Value ν)}
    (hparams : func.params = (func.locals.entries.take func.arity).map (·.type))
    (haccepts : arguments.map Value.tag = func.params) (slot : Nat) :
    (arguments ++ func.extraLocals)[slot]?.map Value.tag =
      func.locals.entries[slot]?.map fun entry => func.heldType slot entry.type := by
  have hlength : arguments.length = func.arity := by
    rw [Func.arity, ← haccepts, List.length_map]
  unfold Func.heldType Func.StartsTyped
  by_cases hslot : slot < func.arity
  · have htag : arguments[slot]?.map Value.tag = func.params[slot]? := by
      rw [← haccepts, List.getElem?_map]
    rw [List.getElem?_append_left (hlength ▸ hslot), htag, hparams, List.getElem?_map,
      List.getElem?_take_of_lt hslot]
    simp only [hslot, true_or, if_true]
  · rw [List.getElem?_append_right (by omega), Func.extraLocals, List.getElem?_map,
      List.getElem?_drop, hlength, Nat.add_sub_cancel' (Nat.le_of_not_lt hslot), Option.map_map]
    congr 1
    funext entry
    simpa only [Function.comp_apply, hslot, false_or] using Value.tag_initial_eq entry.type

/-- What the local holds is checked before the value is. -/
theorem setLocal_of_held {machine : Machine ν} {value old : Value ν} {slot : Nat} {type : TypeTag}
    {frame : Frame} {frames : List Frame} (htop : machine.stack.back? = some value)
    (hframes : machine.frames = frame :: frames)
    (hheld : machine.stack.pop[frame.base + slot]? = some old) :
    setLocal slot type machine = (do
      checkTag type old
      checkTag type value
      modify fun machine =>
        { machine with stack := machine.stack.setIfInBounds (frame.base + slot) value } :
          Action ν Unit) machine.popped := by
  have hpop : pop machine = .ok value machine.popped := by
    simp only [pop, htop, popped]
  have hcell : localCell slot machine.popped = .ok (frame.base + slot, old) machine.popped := by
    simp only [localCell, popped, hframes, hheld]
  rw [setLocal, bind_of_ok hpop, bind_of_ok hcell]

section Activated

variable [Host ν]

/-- The machine is inside a call of a function whose slots start at `base`, and since the call only
assignments to locals have written to these slots. -/
inductive Activated (program : Program ν) (output : Sink) (func : Func) (base : Nat) :
    Machine ν → Prop
  | call {machine machine' : Machine ν} {calls : List Func} {arguments : Nat}
      (reaches : Reaches program output machine calls)
      (code : program.code[machine.pc]? = some (.invoke arguments))
      (callee : machine.callee? arguments = some (.function func))
      (place : machine.calleePlace arguments = base)
      (next : machine.step program = .running machine') :
      Activated program output func base machine'
  | keep {machine : Machine ν} (inside : Activated program output func base machine)
      (slots : ∀ slot < func.locals.size,
        (machine.step program).machine.stack[base + slot]? = machine.stack[base + slot]?) :
      Activated program output func base (machine.step program).machine
  | assign {machine machine' : Machine ν} {slot : Nat} {type : TypeTag}
      (inside : Activated program output func base machine)
      (code : program.code[machine.pc]? = some (.setLocal slot type))
      (operand : base + func.locals.size < machine.stack.size)
      (next : machine.step program = .running machine') :
      Activated program output func base machine'

variable {program : Program ν} {output : Sink} {func : Func} {base : Nat} {machine : Machine ν}

theorem Activated.reaches (h : Activated program output func base machine) :
    ∃ calls, Reaches program output machine calls := by
  have hnext : ∀ {machine : Machine ν} {calls : List Func} {progress : Progress ν},
      Reaches program output machine calls → machine.step program = progress →
      ∃ calls', Reaches program output progress.machine calls' := by
    intro machine calls progress hreaches hstep
    exact ⟨_, hstep ▸ hreaches.step⟩
  induction h with
  | call reaches code callee place next => exact hnext reaches next
  | keep inside slots ih =>
      obtain ⟨calls, hreaches⟩ := ih
      exact hnext hreaches rfl
  | assign inside code operand next ih =>
      obtain ⟨calls, hreaches⟩ := ih
      exact hnext hreaches next

/-- An assignment to a local does not change the type of what any slot below its operand holds. -/
theorem tag_of_setLocal {machine' : Machine ν} {slot index : Nat} {type : TypeTag}
    (hcode : program.code[machine.pc]? = some (.setLocal slot type))
    (hstep : machine.step program = .running machine') (hindex : index < machine.stack.size - 1) :
    machine'.stack[index]?.map Value.tag = machine.stack[index]?.map Value.tag := by
  obtain ⟨instruction, hfound, hmoves⟩ := moves_of_step hstep
  obtain rfl := Option.some.inj (hcode.symm.trans hfound)
  generalize hinstruction : Instruction.setLocal slot type = instruction at hmoves
  cases hmoves with
  | load loads => cases loads <;> cases hinstruction
  | assignGlobal | binary | pop | jumpIfZero | builtin | function | ret => cases hinstruction
  | @setLocal slot frame frames old value top active held same =>
      have hpopped : machine.stack.pop[index]? = machine.stack[index]? := getElem?_pop_of_lt hindex
      dsimp only
      rw [Array.getElem?_setIfInBounds]
      split
      next heq =>
        subst heq
        rw [if_pos (by simpa using hindex), ← hpopped, held, Option.map_some, Option.map_some, same]
      next => rw [hpopped]

/-- In every state inside the call each slot holds a value of the type it started with. -/
theorem Activated.tag (h : Activated program output func base machine)
    (hparams : func.params = (func.locals.entries.take func.arity).map (·.type)) {slot : Nat}
    (hslot : slot < func.locals.size) :
    machine.stack[base + slot]?.map Value.tag =
      func.locals.entries[slot]?.map fun entry => func.heldType slot entry.type := by
  induction h with
  | call reaches code callee place next =>
      obtain ⟨rfl, haccepts⟩ := entered_of_step next code callee
      rw [← place, getElem?_entered_slot]
      exact tag_of_accepted hparams (tags_of_checkArguments haccepts) slot
  | keep inside slots ih => rw [slots slot hslot, ih]
  | assign inside code operand next ih => rw [tag_of_setLocal code next (by omega), ih]

/-! ## Assignments -/

variable {value old : Value ν} {slot : Nat} {type : TypeTag} {frame : Frame} {frames : List Frame}

theorem advance_setLocal (htop : machine.stack.back? = some value)
    (hframes : machine.frames = frame :: frames)
    (hheld : machine.stack.pop[frame.base + slot]? = some old) (hold : old.tag = type)
    (htag : value.tag = type) :
    machine.advance program (.setLocal slot type) = .running { machine with
      pc := machine.pc + 1
      stack := machine.stack.pop.setIfInBounds (frame.base + slot) value } := by
  have hset : setLocal slot type machine = .ok () { machine with
      stack := machine.stack.pop.setIfInBounds (frame.base + slot) value } := by
    rw [setLocal_of_held htop hframes hheld]
    simp only [checkTag, hold, htag, if_true]
    rfl
  simp only [advance, perform, bind_of_ok hset]
  rfl

theorem advance_setLocal_of_mismatch (htop : machine.stack.back? = some value)
    (hframes : machine.frames = frame :: frames)
    (hheld : machine.stack.pop[frame.base + slot]? = some old) (hold : old.tag ≠ type) :
    machine.advance program (.setLocal slot type) =
      .stopped (.failed ⟨machine.pc, .typeMismatch type old.tag⟩) machine.popped := by
  have hset : setLocal slot type machine = .error (.typeMismatch type old.tag) machine.popped := by
    rw [setLocal_of_held htop hframes hheld]
    simp only [checkTag, if_neg hold]
    rfl
  have hperform : perform program (.setLocal slot type) machine =
      .error (.typeMismatch type old.tag) machine.popped :=
    bind_eq_error.2 (.inl hset)
  simp only [advance, hperform]
  rfl

theorem advance_loadLocal (hframes : machine.frames = frame :: frames)
    (hheld : machine.stack[frame.base + slot]? = some value) (htag : value.tag = type)
    (hroom : machine.stack.size < stackLimit) :
    machine.advance program (.loadLocal slot type) = .running { machine with
      pc := machine.pc + 1
      stack := machine.stack.push value } := by
  have hcell : localCell slot machine = .ok (frame.base + slot, value) machine := by
    simp only [localCell, hframes, hheld]
  have hload : loadLocal slot type machine =
      .ok () { machine with stack := machine.stack.push value } := by
    rw [loadLocal, bind_of_ok hcell]
    simp only [checkTag, htag, if_true]
    exact if_pos hroom
  simp only [advance, perform, bind_of_ok hload]
  rfl

/-- A local of a compiled function, in any state inside a call of it in which its slots were written
by assignments only, with a value of its declared type on top of the operands. If the local is a
parameter, an integer or a string, the value can be assigned: the other locals are as before, and
loading the local pushes the value. Any other local still holds an integer, and so the assignment
fails. -/
theorem assign_to_local {builder builder' : Builder ν} {signature : Signature} {body : String}
    {events events' : Array Event} {name : String}
    (hcompiles : builder.function signature body events = .ok (func, builder') events')
    (hinside : Activated program output func base machine)
    (hframes : machine.frames = frame :: frames) (hbase : frame.base = base)
    (hentry : func.locals.entries[slot]? = some ⟨name, type⟩)
    (htop : machine.stack.back? = some value) (htag : value.tag = type)
    (hoperand : base + func.locals.size < machine.stack.size) :
    (func.StartsTyped slot type →
      ∃ machine', machine.advance program (.setLocal slot type) = .running machine' ∧
        (∀ other < func.locals.size, other ≠ slot →
          machine'.stack[base + other]? = machine.stack[base + other]?) ∧
        machine'.advance program (.loadLocal slot type) = .running { machine' with
          pc := machine'.pc + 1
          stack := machine'.stack.push value }) ∧
    (¬func.StartsTyped slot type →
      machine.advance program (.setLocal slot type) =
        .stopped (.failed ⟨machine.pc, .typeMismatch type .int⟩) machine.popped) := by
  subst hbase
  have hslot : slot < func.locals.size := (List.getElem?_eq_some_iff.1 hentry).1
  have htags := hinside.tag (Builder.params_of_function hcompiles) hslot
  rw [hentry, Option.map_some, Option.map_eq_some_iff] at htags
  obtain ⟨old, hold, hheld⟩ := htags
  have hbelow {other : Nat} (hother : other < func.locals.size) :
      machine.stack.pop[frame.base + other]? = machine.stack[frame.base + other]? :=
    getElem?_pop_of_lt (by omega)
  rw [← hbelow hslot] at hold
  constructor
  · intro htyped
    rw [Func.heldType, if_pos htyped] at hheld
    refine ⟨_, advance_setLocal htop hframes hold hheld htag, fun other hother hdiffers => ?_, ?_⟩
    · dsimp only
      rw [Array.getElem?_setIfInBounds_ne (by omega), hbelow hother]
    · obtain ⟨_, hreaches⟩ := hinside.reaches
      have hfits := hreaches.fits.stack
      refine advance_loadLocal hframes ?_ htag ?_
      · dsimp only
        rw [Array.getElem?_setIfInBounds_self_of_lt (by simp; omega)]
      · simp only [Array.size_setIfInBounds, Array.size_pop]
        omega
  · intro huntyped
    rw [Func.heldType, if_neg huntyped] at hheld
    have hmismatch : old.tag ≠ type := by
      rintro rfl
      exact huntyped (.inr (by rw [hheld]; rfl))
    rw [advance_setLocal_of_mismatch htop hframes hold hmismatch, hheld]

end Activated

/-- The globals and cells of a builder that holds the builtins of the host. -/
def nativeBuilder : Builder Native :=
  { globals := ⟨[⟨"print_one", .builtin⟩, ⟨"print_all", .builtin⟩, ⟨"print_sum", .builtin⟩,
      ⟨"done", .builtin⟩]⟩
    memory := #[.builtin Native.printOne.builtin, .builtin Native.printAll.builtin,
      .builtin Native.printSum.builtin, .builtin Native.done.builtin] }

/-- A parameter of a callable type can be assigned. -/
theorem assign_to_callable_parameter :
    ∃ (func : Func) (builder : Builder Native) (program : Program Native)
      (machine machine' : Machine Native) (events events' : Array Event),
      Builder.ofBuiltins Native.builtins = .ok nativeBuilder ∧
      nativeBuilder.function
        { name := "f", params := [⟨"p", .builtin⟩], locals := [⟨"n", .int⟩] } "p = print_all" #[] =
        .ok (func, builder) events ∧
      builder.build "f(print_one)" events = .ok program events' ∧
      Activated program {} func 0 machine ∧ machine.frames = [⟨6, 0⟩] ∧
      machine.stack = #[.builtin Native.printOne.builtin, .int 0,
        .builtin Native.printAll.builtin] ∧
      machine.advance program (.setLocal 0 .builtin) = .running machine' ∧
      machine'.stack[1]? = machine.stack[1]? ∧
      machine'.advance program (.loadLocal 0 .builtin) = .running { machine' with
        pc := machine'.pc + 1
        stack := machine'.stack.push (.builtin Native.printAll.builtin) } := by
  let func : Func := ⟨"f", [.builtin], none, 0, ⟨[⟨"p", .builtin⟩, ⟨"n", .int⟩]⟩⟩
  let printOne : Value Native := .builtin Native.printOne.builtin
  let printAll : Value Native := .builtin Native.printAll.builtin
  let builder : Builder Native :=
    { code := #[.loadGlobal "print_all", .setLocal 0 .builtin, .ret]
      globals := ⟨nativeBuilder.globals.entries ++ [⟨"f", .function⟩]⟩
      memory := nativeBuilder.memory.push (.function func) }
  let program : Program Native :=
    { code := builder.code ++ #[.loadGlobal "f", .loadGlobal "print_one", .invoke 1]
      globals := builder.globals
      memory := builder.memory
      entry := 3 }
  let state (pc : Nat) (stack : Array (Value Native)) (frames : List Frame) : Machine Native :=
    { pc, stack, frames, memory := program.memory }
  have hbuiltins : Builder.ofBuiltins Native.builtins = .ok nativeBuilder := by cbv
  have hfunction : nativeBuilder.function
      { name := "f", params := [⟨"p", .builtin⟩], locals := [⟨"n", .int⟩] } "p = print_all" #[] =
      .ok (func, builder) #[.functionCompiled "f" 0 3 2] := by cbv
  have hbuild : builder.build "f(print_one)" #[.functionCompiled "f" 0 3 2] =
      .ok program #[.functionCompiled "f" 0 3 2, .mainCompiled 3 6] := by cbv
  have hreaches : Reaches program {} (state 5 #[.function func, printOne] []) [] :=
    .step (.step .start)
  have hentered : Activated program {} func 0 (state 0 #[printOne, .int 0] [⟨6, 0⟩]) :=
    .call hreaches rfl rfl rfl rfl
  have hinside : Activated program {} func 0 (state 1 #[printOne, .int 0, printAll] [⟨6, 0⟩]) := by
    refine .keep hentered fun slot hslot => ?_
    rcases slot with _ | _ | slot
    · rfl
    · rfl
    · exact absurd hslot (by simp [func, SlotTable.size])
  have hentry : func.locals.entries[0]? = some ⟨"p", .builtin⟩ := rfl
  have htag : printAll.tag = .builtin := rfl
  obtain ⟨hassigns, -⟩ := assign_to_local hfunction hinside rfl rfl hentry rfl htag (by decide)
  obtain ⟨machine', hset, hothers, hload⟩ := hassigns (.inl (by decide))
  exact ⟨func, builder, program, _, machine', _, _, hbuiltins, hfunction, hbuild, hinside, rfl, rfl,
    hset, hothers 1 (by decide) (by decide), hload⟩

/-- A local of a callable type that is no parameter starts as an integer and cannot be assigned
before its first use. -/
theorem assign_to_callable_local :
    ∃ (func : Func) (builder : Builder Native) (program : Program Native)
      (machine : Machine Native) (events events' : Array Event),
      Builder.ofBuiltins Native.builtins = .ok nativeBuilder ∧
      nativeBuilder.function { name := "f", locals := [⟨"g", .builtin⟩] }
        "g = print_one g(1)" #[] = .ok (func, builder) events ∧
      builder.build "f()" events = .ok program events' ∧
      Activated program {} func 0 machine ∧ machine.frames = [⟨8, 0⟩] ∧
      program.code[machine.pc]? = some (.setLocal 0 .builtin) ∧
      machine.stack = #[.int 0, .builtin Native.printOne.builtin] ∧
      machine.step program =
        .stopped (.failed ⟨1, .typeMismatch .builtin .int⟩) machine.popped := by
  let func : Func := ⟨"f", [], none, 0, ⟨[⟨"g", .builtin⟩]⟩⟩
  let printOne : Value Native := .builtin Native.printOne.builtin
  let builder : Builder Native :=
    { code := #[.loadGlobal "print_one", .setLocal 0 .builtin, .loadLocal 0 .builtin,
        .push (.int 1), .invoke 1, .ret]
      globals := ⟨nativeBuilder.globals.entries ++ [⟨"f", .function⟩]⟩
      memory := nativeBuilder.memory.push (.function func) }
  let program : Program Native :=
    { code := builder.code ++ #[.loadGlobal "f", .invoke 0]
      globals := builder.globals
      memory := builder.memory
      entry := 6 }
  let state (pc : Nat) (stack : Array (Value Native)) (frames : List Frame) : Machine Native :=
    { pc, stack, frames, memory := program.memory }
  have hbuiltins : Builder.ofBuiltins Native.builtins = .ok nativeBuilder := by cbv
  have hfunction : nativeBuilder.function { name := "f", locals := [⟨"g", .builtin⟩] }
      "g = print_one g(1)" #[] = .ok (func, builder) #[.functionCompiled "f" 0 6 1] := by cbv
  have hbuild : builder.build "f()" #[.functionCompiled "f" 0 6 1] =
      .ok program #[.functionCompiled "f" 0 6 1, .mainCompiled 6 8] := by cbv
  have hreaches : Reaches program {} (state 7 #[.function func] []) [] := .step .start
  have hentered : Activated program {} func 0 (state 0 #[.int 0] [⟨8, 0⟩]) :=
    .call hreaches rfl rfl rfl rfl
  have hinside : Activated program {} func 0 (state 1 #[.int 0, printOne] [⟨8, 0⟩]) := by
    refine .keep hentered fun slot hslot => ?_
    rcases slot with _ | slot
    · rfl
    · exact absurd hslot (by simp [func, SlotTable.size])
  exact ⟨func, builder, program, _, _, _, hbuiltins, hfunction, hbuild, hinside, rfl, rfl, rfl, rfl⟩

end Machine

end StackScript
