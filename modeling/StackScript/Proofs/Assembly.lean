import StackScript.Proofs.Building
import StackScript.Proofs.Emission

/-!
# Programs that are put together in place

An operation on a builder gives a new builder, or none if it fails. Operations can also change one
assembly in place: the code of a body goes right behind the code there is, and if the body turns out
not to compile, the code is cut back to its old length. This makes no difference, and the slots that
are looked up and filled are within bounds.
-/

namespace StackScript

variable {ν : Type}

/-- The parts of a program collected so far. -/
structure Assembly (ν : Type) where
  code : Array Instruction := #[]
  globals : IndexedTable := {}
  memory : Array (Value ν) := #[]

/-- An operation that changes an assembly in place. -/
abbrev Assemble (ν : Type) := Checked CompileError (Assembly ν)

namespace Signature

/-- Adds variables to a table of the function's locals. -/
def extendIndexed (signature : Signature) :
    IndexedTable → List Variable → Except CompileError IndexedTable
  | table, [] => .ok table
  | table, first :: rest =>
      match table.declare first with
      | .error duplicate => .error (.duplicateParameter signature.name duplicate.name)
      | .ok (_, table) => signature.extendIndexed table rest

/-- The table of parameters and locals. -/
def indexedTable (signature : Signature) : Except CompileError IndexedTable :=
  signature.extendIndexed {} (signature.params ++ signature.locals)

end Signature

namespace Assemble

/-- Declares a global that holds a value at the start, and gives its slot. -/
def declare (name : String) (type : TypeTag) (value : Value ν) : Assemble ν Nat := fun assembly =>
  match assembly.globals.declare ⟨name, type⟩ with
  | .error duplicate => .error (.error (.duplicateGlobal duplicate.name)) assembly
  | .ok (slot, globals) => .ok slot { assembly with globals, memory := assembly.memory.push value }

/-- The slot that a function of the given name fills, or `none` if it is not declared yet. -/
def functionSlot? (name : String) : Assemble ν (Option Nat) := do
  let assembly ← get
  match ← assembly.globals.find name with
  | none => return none
  | some cell =>
      let filled := ((assembly.memory[cell.slot]?).bind Value.function?).isSome
      if cell.type = .function ∧ ¬filled then return some cell.slot
      else Checked.fail (.duplicateGlobal name)

/-- Writes a block behind the code there is, and gives the locals after it. An error leaves what was
written up to there. -/
def block (items : List Item) (locals : Option IndexedTable) :
    Assemble ν (Option IndexedTable) := fun assembly =>
  match Emit.wholeBlock (items.length + 1) { stream := items, code := assembly.code, locals } with
  | .ok () emitter => .ok emitter.locals { assembly with code := emitter.code }
  | .error stop emitter => .error stop { assembly with code := emitter.code }

/-- Puts a compiled function into its slot, which has to be there, or declares it. -/
def store (slot? : Option Nat) (func : Func) : Assemble ν Unit :=
  match slot? with
  | some slot => fun assembly =>
      if slot < assembly.memory.size then
        .ok () { assembly with memory := assembly.memory.setIfInBounds slot (.function func) }
      else .error .undefined assembly
  | none => do
      let _ ← declare func.name .function (.function func)
      return ()

/-- Compiles the body of a function and stores the function. If the body does not compile, the code
is cut back to its old length. -/
def compileBody (signature : Signature) (body : List Item) (slot? : Option Nat)
    (table : IndexedTable) : Assemble ν Func := do
  let entry := (← get).code.size
  match ← Checked.attempt (block body (some table)) with
  | .error error =>
      modify fun assembly => { assembly with code := assembly.code.take entry }
      Checked.fail error
  | .ok locals =>
      modify fun assembly => { assembly with code := assembly.code.push .ret }
      let func := signature.func entry ((locals.map IndexedTable.table).getD {})
      store slot? func
      return func

/-- Compiles a function whose body is a stream of items. -/
def functionOfItems (signature : Signature) (body : List Item) : Assemble ν Func := do
  let slot? ← functionSlot? signature.name
  let table ← Checked.ofExcept signature.indexedTable
  compileBody signature body slot? table

/-- Compiles the top-level code and finishes the program. -/
def build (main : List Item) : Assemble ν (IndexedProgram ν) := do
  let entry := (← get).code.size
  let _ ← block main none
  let assembly ← get
  return { code := assembly.code, globals := assembly.globals, memory := assembly.memory, entry }

end Assemble

/-! ## Assemblies and builders -/

/-- The assembly has what the builder has. -/
structure Assembly.Shows (assembly : Assembly ν) (builder : Builder ν) : Prop where
  code : assembly.code = builder.code
  globals : assembly.globals.table = builder.globals
  memory : assembly.memory = builder.memory
  consistent : assembly.globals.Consistent

namespace Signature

theorem extendIndexed_eq (signature : Signature) {indexed : IndexedTable}
    (h : indexed.Consistent) (added : List Variable) :
    (signature.extendIndexed indexed added).map IndexedTable.table =
      signature.extend indexed.table added ∧
      ∀ indexed', signature.extendIndexed indexed added = .ok indexed' → indexed'.Consistent := by
  induction added generalizing indexed with
  | nil =>
      refine ⟨rfl, ?_⟩
      rintro _ ⟨⟩
      exact h
  | cons first rest ih =>
      have hdeclare := h.declare_eq first
      unfold extendIndexed extend
      cases hfirst : indexed.declare first with
      | error duplicate =>
          rw [hfirst] at hdeclare
          simp only [← hdeclare, Except.map]
          exact ⟨trivial, by simp⟩
      | ok result =>
          obtain ⟨slot, indexed'⟩ := result
          rw [hfirst] at hdeclare
          simp only [← hdeclare, Except.map]
          exact ih (h.declare hfirst)

theorem indexedTable_eq (signature : Signature) :
    signature.indexedTable.map IndexedTable.table = signature.table ∧
      ∀ indexed, signature.indexedTable = .ok indexed → indexed.Consistent :=
  signature.extendIndexed_eq .empty _

end Signature

/-- A reader that fails reports its error. -/
theorem Build.parse_error {α : Type} {items : List Item} {locals : Option SlotTable}
    {parser : Parser α} {error : CompileError} {events events' : Array Event}
    (h : Build.parse items locals parser events = .error error events') :
    ∃ state, parser { rest := items, locals, events } = .error error state := by
  unfold Build.parse at h
  cases hparser : parser { rest := items, locals, events } with
  | ok result state =>
      rw [hparser] at h
      cases h
  | error error' state =>
      rw [hparser] at h
      cases h
      exact ⟨state, rfl⟩

namespace Assembly.Shows

variable {assembly : Assembly ν} {builder : Builder ν} (h : assembly.Shows builder)
include h

theorem functionSlot? (name : String) :
    Assemble.functionSlot? name assembly =
      Checked.ofExcept (builder.functionSlot? name) assembly := by
  unfold Assemble.functionSlot? Builder.functionSlot?
  rw [get_bind, h.consistent.find_eq, pure_bind, h.globals, h.memory]
  cases builder.globals.find? name with
  | none => rfl
  | some found =>
      simp only [Option.map_some]
      split <;> rfl

section Blocks

variable {items : List Item} {indexed : Option IndexedTable} {locals : Option SlotTable}
  (hlocals : indexed.map IndexedTable.table = locals)
  (hconsistent : ∀ table ∈ indexed, table.Consistent) {events events' : Array Event}
include hlocals hconsistent

/-- An emitter for a block and the parser of that block start at the same place. -/
theorem emits (items : List Item) (events : Array Event) :
    Emits nestingLimit assembly.code.toList (Emit.wholeBlock (items.length + 1))
      (Parser.wholeBlock items.length builder.code.size)
      { stream := items, code := assembly.code, locals := indexed }
      { rest := items, locals, events }
      fun tree _ code => code = assembly.code.toList ++ Block.code builder.code.size tree := by
  have hsize : builder.code.size = assembly.code.toList.length := by
    rw [Array.length_toList, h.code]
  rw [hsize]
  apply wholeBlock_emits
  · exact ⟨.plain, Nat.zero_add _, rfl, hlocals, hconsistent⟩
  · exact Nat.le_refl items.length

/-- A block that compiles is written behind the code there is. -/
theorem block_ok {code : Array Instruction} {locals' : Option SlotTable}
    (happend : Build.append builder.code items locals events = .ok (code, locals') events') :
    ∃ indexed', indexed'.map IndexedTable.table = locals' ∧
      Assemble.block items indexed assembly = .ok indexed' { assembly with code } := by
  obtain ⟨tree, _, hblock, hcode⟩ := Build.append_eq_ok.1 happend
  cases hcode
  obtain ⟨state, hparse, rfl, -⟩ := Build.block_eq_ok.1 hblock
  have hemits := h.emits hlocals hconsistent items events
  unfold Emits at hemits
  rw [hparse] at hemits
  obtain ⟨_, emitter, _, hemit, rfl, hshows⟩ := hemits
  refine ⟨emitter.locals, hshows.locals, ?_⟩
  have hcode : emitter.code = builder.code ++ (Block.code builder.code.size tree).toArray := by
    rw [← Array.toList_inj, hshows.code, h.code, Array.toList_append]
  simp only [Assemble.block, hemit, hcode]

/-- A block that does not compile leaves something behind the code there was. -/
theorem block_error {error : CompileError}
    (happend : Build.append builder.code items locals events = .error error events') :
    ∃ code, assembly.code.toList <+: code.toList ∧
      Assemble.block items indexed assembly = .error (.error error) { assembly with code } := by
  rcases bind_eq_error.1 happend with hblock | ⟨_, _, -, hpure⟩
  · rcases bind_eq_error.1 hblock with hparse | ⟨_, _, -, hpure⟩
    · obtain ⟨state, hparser⟩ := Build.parse_error hparse
      have hemits := h.emits hlocals hconsistent items events
      unfold Emits at hemits
      rw [hparser] at hemits
      obtain ⟨emitter, hemit, -, hcode⟩ := hemits
      exact ⟨emitter.code, hcode, by simp only [Assemble.block, hemit]⟩
    · exact absurd hpure pure_ne_error
  · exact absurd hpure pure_ne_error

end Blocks

end Assembly.Shows

/-! ## Globals and functions in place -/

/-- Compiles the body of a function, whose slot and table of locals are known, and stores the
function. -/
def Builder.compileBody (builder : Builder ν) (signature : Signature) (body : List Item)
    (slot? : Option Nat) (table : SlotTable) : Build (Func × Builder ν) := do
  let entry := builder.code.size
  let (code, locals) ← Build.append builder.code body (some table)
  let code := code.push .ret
  let func := signature.func entry (locals.getD {})
  Build.report (.functionCompiled func.name entry code.size func.locals.size)
  let builder ← Builder.store { builder with code } slot? func
  return (func, builder)

theorem Builder.functionOfItems_eq (builder : Builder ν) (signature : Signature)
    (body : List Item) :
    builder.functionOfItems signature body = (do
      let slot? ← builder.functionSlot? signature.name
      let table ← signature.table
      builder.compileBody signature body slot? table) :=
  rfl

/-- A function that fills no slot has a name that is not declared. -/
theorem Builder.slot?_of_functionSlot? {builder : Builder ν} {name : String}
    (h : builder.functionSlot? name = .ok none) : builder.globals.slot? name = none := by
  unfold functionSlot? at h
  rw [← SlotTable.map_find?]
  cases hfind : builder.globals.find? name with
  | none => rfl
  | some found =>
      simp only [hfind] at h
      split at h <;> cases h

/-- An operation in place has the outcome that the operation on a builder has, and an error leaves
the assembly as it was. -/
def Assembly.Follows {α : Type} (assembly : Assembly ν) (assemble : Assemble ν α) :
    Except CompileError (α × Builder ν) → Prop
  | .ok (value, builder) => ∃ after, assemble assembly = .ok value after ∧ after.Shows builder
  | .error error => assemble assembly = .error (.error error) assembly

namespace Assembly.Follows

variable {α β : Type} {assembly : Assembly ν}

/-- Reading something in place first, which changes nothing. -/
theorem read {first : Assemble ν α} {result : Except CompileError α}
    {next : α → Assemble ν β} {outcome : α → Except CompileError (β × Builder ν)}
    (hfirst : first assembly = Checked.ofExcept result assembly)
    (hnext : ∀ value, result = .ok value → assembly.Follows (next value) (outcome value)) :
    assembly.Follows (first >>= next) (result.bind outcome) := by
  cases result with
  | error error => exact bind_eq_error.2 (.inl hfirst)
  | ok value =>
      have hbind : (first >>= next) assembly = next value assembly := bind_of_ok hfirst
      have hvalue := hnext value rfl
      unfold Follows at hvalue ⊢
      rw [hbind]
      exact hvalue

theorem map (f : α → β) {assemble : Assemble ν α} {outcome : Except CompileError (α × Builder ν)}
    (h : assembly.Follows assemble outcome) :
    assembly.Follows (assemble >>= fun value => pure (f value))
      (outcome.map fun result => (f result.1, result.2)) := by
  cases outcome with
  | error error => exact bind_eq_error.2 (.inl h)
  | ok result =>
      obtain ⟨value, builder⟩ := result
      obtain ⟨after, hafter, hshows⟩ := h
      exact ⟨after, bind_of_ok hafter, hshows⟩

end Assembly.Follows

namespace Assembly.Shows

variable {assembly : Assembly ν} {builder : Builder ν}

theorem declare (h : assembly.Shows builder) (name : String) (type : TypeTag) (value : Value ν) :
    assembly.Follows (Assemble.declare name type value) (builder.declare name type value) := by
  have hdeclare := h.consistent.declare_eq ⟨name, type⟩
  rw [h.globals] at hdeclare
  unfold Assemble.declare Builder.declare
  cases hnew : assembly.globals.declare ⟨name, type⟩ with
  | error duplicate =>
      rw [hnew] at hdeclare
      simp only [← hdeclare, Except.map, Follows, hnew]
  | ok result =>
      obtain ⟨slot, globals⟩ := result
      rw [hnew] at hdeclare
      simp only [← hdeclare, Except.map, Follows, hnew]
      exact ⟨_, rfl, h.code, rfl, by rw [h.memory], h.consistent.declare hnew⟩

/-- Storing a function in place. A slot that is free for it is within the memory. -/
theorem store (h : assembly.Shows builder) (htidy : builder.Tidy) {slot? : Option Nat}
    {func : Func} (hslot : builder.functionSlot? func.name = .ok slot?) :
    ∃ builder', builder.store slot? func = .ok builder' ∧
      assembly.Follows (Assemble.store slot? func) (.ok ((), builder')) := by
  cases slot? with
  | some slot =>
      obtain ⟨-, hentry, -⟩ := Builder.Tidy.functionSlot?_ok hslot
      obtain ⟨hlt, -⟩ := List.getElem?_eq_some_iff.1 hentry
      have hbound : slot < assembly.memory.size := by
        rw [h.memory, htidy.cells]
        exact hlt
      refine ⟨_, rfl, { assembly with memory := _ }, if_pos hbound, h.code, h.globals, ?_,
        h.consistent⟩
      rw [h.memory]
  | none =>
      have hnew := Builder.slot?_of_functionSlot? hslot
      have hfollows := h.declare func.name .function (.function func)
      have hdeclare : builder.declare func.name .function (.function func) =
          .ok (builder.globals.size, { builder with
            globals := ⟨builder.globals.entries ++ [⟨func.name, .function⟩]⟩
            memory := builder.memory.push (.function func) }) := by
        simp only [Builder.declare, SlotTable.declare, hnew]
      rw [hdeclare] at hfollows
      obtain ⟨after, hafter, hshows⟩ := hfollows
      refine ⟨_, ?_, after, ?_, hshows⟩
      · simp only [Builder.store, hdeclare, Except.map]
      · simp only [Assemble.store]
        rw [bind_of_ok hafter]
        rfl

section Bodies

variable (h : assembly.Shows builder) {signature : Signature} {slot? : Option Nat}
  {indexed : IndexedTable} (hindexed : indexed.Consistent) {body : List Item}
  {events events' : Array Event}
include h hindexed

/-- If a body does not compile, what was written is behind the old code, so cutting the code back
gives the old code. -/
theorem compileBody_error {error : CompileError}
    (happend : Build.append builder.code body (some indexed.table) events = .error error events') :
    Assemble.compileBody signature body slot? indexed assembly =
      .error (.error error) assembly := by
  have hlocals : (some indexed).map IndexedTable.table = some indexed.table := rfl
  obtain ⟨code, hprefix, hblock⟩ := h.block_error hlocals (by simp [hindexed]) happend
  have hattempt : Checked.attempt (Assemble.block body (some indexed)) assembly =
      .ok (.error error) { assembly with code } := by
    simp only [Checked.attempt, hblock]
  have hcut : code.take assembly.code.size = assembly.code := by
    have htake : (code.take assembly.code.size).toList =
        code.toList.take assembly.code.size := by simp
    rw [← Array.toList_inj, htake, ← Array.length_toList]
    exact (List.prefix_iff_eq_take.1 hprefix).symm
  have hrestored : (Checked.fail error : Assemble ν Func)
      { assembly with code := code.take assembly.code.size } =
      .error (.error error) assembly := by
    rw [hcut]
    rfl
  unfold Assemble.compileBody
  rw [get_bind, bind_of_ok hattempt]
  exact hrestored

/-- A body that compiles is followed by a return, and its function is stored. -/
theorem compileBody_ok (htidy : builder.Tidy)
    (hslot : builder.functionSlot? signature.name = .ok slot?) {code : Array Instruction}
    {locals : Option SlotTable}
    (happend : Build.append builder.code body (some indexed.table) events =
      .ok (code, locals) events') :
    ∃ builder',
      Builder.store { builder with code := code.push .ret } slot?
        (signature.func builder.code.size (locals.getD {})) = .ok builder' ∧
      assembly.Follows (Assemble.compileBody signature body slot? indexed)
        (.ok (signature.func builder.code.size (locals.getD {}), builder')) := by
  have hlocals : (some indexed).map IndexedTable.table = some indexed.table := rfl
  obtain ⟨after, rfl, hblock⟩ := h.block_ok hlocals (by simp [hindexed]) happend
  have hattempt : Checked.attempt (Assemble.block body (some indexed)) assembly =
      .ok (.ok after) { assembly with code } := by
    simp only [Checked.attempt, hblock]
  have hwritten : Shows { assembly with code := code.push .ret }
      { builder with code := code.push .ret } := ⟨rfl, h.globals, h.memory, h.consistent⟩
  have hfree : Builder.functionSlot? { builder with code := code.push .ret }
      (signature.func builder.code.size ((after.map IndexedTable.table).getD {})).name =
      .ok slot? := hslot
  obtain ⟨builder', hstore, stored, hput, hshows⟩ :=
    hwritten.store ⟨htidy.distinct, htidy.cells, htidy.named⟩ hfree
  refine ⟨builder', hstore, stored, ?_, hshows⟩
  unfold Assemble.compileBody
  rw [get_bind, bind_of_ok hattempt, h.code]
  exact bind_of_ok hput

end Bodies

/-- Compiling a body in place. -/
theorem compileBody (h : assembly.Shows builder) (htidy : builder.Tidy) {signature : Signature}
    {slot? : Option Nat} (hslot : builder.functionSlot? signature.name = .ok slot?)
    {indexed : IndexedTable} (hindexed : indexed.Consistent) (body : List Item)
    (events : Array Event) :
    assembly.Follows (Assemble.compileBody signature body slot? indexed)
      (Checked.outcome (builder.compileBody signature body slot? indexed.table events)) := by
  cases happend : Build.append builder.code body (some indexed.table) events with
  | error error events' =>
      have hcompile : builder.compileBody signature body slot? indexed.table events =
          .error error events' := bind_eq_error.2 (.inl happend)
      rw [hcompile]
      exact h.compileBody_error hindexed happend
  | ok result events' =>
      obtain ⟨code, locals⟩ := result
      obtain ⟨builder', hstore, hfollows⟩ := h.compileBody_ok hindexed htidy hslot happend
      have hcompile : Checked.outcome
          (builder.compileBody signature body slot? indexed.table events) =
          .ok (signature.func builder.code.size (locals.getD {}), builder') := by
        unfold Builder.compileBody
        rw [bind_of_ok happend]
        refine (Checked.outcome_liftM_bind _ _ _).trans ?_
        rw [hstore]
        rfl
      rw [hcompile]
      exact hfollows

/-- Compiling a function in place. -/
theorem functionOfItems (h : assembly.Shows builder) (htidy : builder.Tidy)
    (signature : Signature) (body : List Item) (events : Array Event) :
    assembly.Follows (Assemble.functionOfItems signature body)
      (Checked.outcome (builder.functionOfItems signature body events)) := by
  obtain ⟨htable, hconsistent⟩ := signature.indexedTable_eq
  rw [Builder.functionOfItems_eq, Checked.outcome_liftM_bind]
  refine .read (h.functionSlot? signature.name) fun slot? hslot => ?_
  rw [Checked.outcome_liftM_bind, ← htable]
  have hbind : ∀ next : SlotTable → Except CompileError (Func × Builder ν),
      (signature.indexedTable.map IndexedTable.table).bind next =
        signature.indexedTable.bind fun indexed => next indexed.table := by
    intro next
    cases signature.indexedTable <;> rfl
  rw [hbind]
  refine .read rfl fun indexed hindexed => ?_
  exact h.compileBody htidy hslot (hconsistent indexed hindexed) body events

end Assembly.Shows

/-! ## Building in place -/

namespace Assembly

variable {assembly : Assembly ν} {builder : Builder ν}

/-- A program that is put together in place is the one that a builder gives, with a map that fits
its globals. Otherwise the two errors are the same. -/
inductive SameOutcome :
    Except (Stop CompileError) (IndexedProgram ν) → Except CompileError (Program ν) → Prop
  | ok {program : IndexedProgram ν} (consistent : program.globals.Consistent) :
      SameOutcome (.ok program) (.ok program.program)
  | error {error : CompileError} : SameOutcome (.error (.error error)) (.error error)

theorem SameOutcome.map_program {result : Except (Stop CompileError) (IndexedProgram ν)}
    {outcome : Except CompileError (Program ν)} (h : SameOutcome result outcome) :
    result.map IndexedProgram.program = outcome.mapError Stop.error := by
  cases h <;> rfl

/-- Building in place. -/
theorem Shows.build (h : assembly.Shows builder) (main : List Item) (events : Array Event) :
    SameOutcome (Checked.outcome (Assemble.build main assembly))
      (Checked.outcome (builder.buildOfItems main events)) := by
  have hlocals : (none : Option IndexedTable).map IndexedTable.table = none := rfl
  have hconsistent : ∀ table ∈ (none : Option IndexedTable), table.Consistent := by simp
  unfold Assemble.build
  rw [get_bind]
  cases happend : Build.append builder.code main none events with
  | error error events' =>
      obtain ⟨code, -, hblock⟩ := h.block_error hlocals hconsistent happend
      have hbuild : builder.buildOfItems main events = .error error events' :=
        bind_eq_error.2 (.inl happend)
      rw [bind_eq_error.2 (.inl hblock), hbuild]
      exact .error
  | ok result events' =>
      obtain ⟨code, locals⟩ := result
      obtain ⟨after, -, hblock⟩ := h.block_ok hlocals hconsistent happend
      unfold Builder.buildOfItems
      rw [bind_of_ok hblock, bind_of_ok happend, get_bind, h.code, ← h.globals, h.memory]
      exact .ok h.consistent

/-- The empty assembly has what the empty builder has. -/
theorem shows_empty : Shows ({} : Assembly ν) {} :=
  ⟨rfl, rfl, rfl, .empty⟩

end Assembly

end StackScript
