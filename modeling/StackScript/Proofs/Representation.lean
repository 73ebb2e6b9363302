import Mathlib.Data.List.Forall2
import StackScript.Proofs.ControlFlow

/-!
# What a builder represents

Operations on a builder succeed or fail in any order. Whatever they do, every global has one cell,
the code is that of the functions that were compiled, in the order in which they were, and every
access to a local is within the table of its function and agrees with it about the type. A program
keeps all that, and a run of it misses only names that were never declared.
-/

namespace StackScript

variable {ν : Type}

/-! ## Locals of a body -/

/-- The slot that an instruction works on, with the type it expects there. -/
def Instruction.slot? : Instruction → Option (Nat × TypeTag)
  | .loadLocal slot type | .setLocal slot type => some (slot, type)
  | _ => none

/-- A slot that the instruction works on is in the table and has the type that is expected. -/
def SlotTable.Types (table : SlotTable) (instruction : Instruction) : Prop :=
  ∀ slot type, instruction.slot? = some (slot, type) →
    (table.entries[slot]?).map (·.type) = some type

namespace Grammar

theorem types_place {locals : Option SlotTable} {final : SlotTable} {name : String} {slot : Nat}
    {type : TypeTag} (hlocals : Extends locals (some final))
    (hplace : place locals name = .slot slot type) :
    (final.entries[slot]?).map (·.type) = some type := by
  cases locals with
  | none => exact hlocals.elim
  | some table =>
      cases hfind : table.find? name with
      | none => simp [place, hfind] at hplace
      | some found =>
          obtain ⟨slot', found⟩ := found
          simp only [place, Option.bind_some, hfind, Place.slot.injEq] at hplace
          obtain ⟨rfl, rfl⟩ := hplace
          obtain ⟨-, hentry, -⟩ := SlotTable.find?_eq_some hfind
          obtain ⟨hlt, -⟩ := List.getElem?_eq_some_iff.1 hentry
          obtain ⟨others, hothers⟩ := hlocals
          rw [← hothers, List.getElem?_append_left hlt, hentry]
          rfl

/-- Slots that were found in a table keep their types while the table grows. -/
theorem covers_types (final : SlotTable) : Covers (some final) final.Types := by
  refine ⟨?_, ?_, ?_⟩
  · intro instruction hplain slot type hslot
    cases instruction <;> cases hplain <;> cases hslot
  · intro locals name hlocals slot type hslot
    cases hplace : place locals name with
    | global => simp [hplace, Place.load, Instruction.slot?] at hslot
    | slot slot' type' =>
        rw [hplace] at hslot
        cases hslot
        exact types_place hlocals hplace
  · intro locals name hlocals slot type hslot
    cases hplace : place locals name with
    | global => simp [hplace, Place.store, Instruction.slot?] at hslot
    | slot slot' type' =>
        rw [hplace] at hslot
        cases hslot
        exact types_place hlocals hplace

end Grammar

namespace Signature

/-- The table of locals that a body is read with: the parameters first. -/
def initialTable (signature : Signature) : SlotTable :=
  ⟨signature.params ++ signature.locals⟩

theorem extend_ok {signature : Signature} {table table' : SlotTable} {added : List Variable}
    (h : signature.extend table added = .ok table') :
    table' = ⟨table.entries ++ added⟩ := by
  induction added generalizing table with
  | nil =>
      cases h
      simp
  | cons first rest ih =>
      unfold extend at h
      split at h
      · cases h
      next slot extended hdeclare =>
        obtain ⟨-, -, rfl⟩ := SlotTable.declare_ok hdeclare
        rw [ih h, List.append_assoc, List.singleton_append]

theorem table_ok {signature : Signature} {table : SlotTable} (h : signature.table = .ok table) :
    table = signature.initialTable :=
  extend_ok h

end Signature

/-- A function that was compiled, with the head and the body it was compiled from. -/
structure Source where
  signature : Signature
  items : List Item
  func : Func

/-- The tree is that of the body's derivation, and the function has the locals that the derivation
declares. -/
structure Source.Reads (source : Source) (compiled : Compiled) : Prop where
  func : compiled.func = source.func
  body : ∃ derivation final,
    Grammar.Admits source.items (some source.signature.initialTable) derivation ∧
    Grammar.blockLocalsAfter (some source.signature.initialTable) derivation = some final ∧
    compiled.body = Grammar.blockTree (some source.signature.initialTable) derivation ∧
    source.func = source.signature.func source.func.entry final

/-- A body that is read makes such a function wherever its code will stand. -/
theorem Source.reads_of_block {signature : Signature} {table : SlotTable} {items : List Item}
    {start : Nat} {events events' : Array Event} {tree : Block} {locals : Option SlotTable}
    (htable : signature.table = .ok table)
    (hblock : Build.block items (some table) start events = .ok (tree, locals) events')
    (entry : Nat) :
    Source.Reads ⟨signature, items, signature.func entry (locals.getD {})⟩
      ⟨signature.func entry (locals.getD {}), tree⟩ := by
  obtain rfl := Signature.table_ok htable
  obtain ⟨derivation, hadmits, rfl, rfl⟩ := Build.block_ok hblock
  obtain ⟨final, hfinal⟩ := Grammar.exists_blockLocalsAfter signature.initialTable derivation
  rw [hfinal]
  exact ⟨rfl, derivation, final, hadmits, hfinal, rfl, rfl⟩

namespace Source.Reads

variable {source : Source} {compiled : Compiled}

/-- The parameters are the first locals. -/
theorem params (h : source.Reads compiled) :
    compiled.func.params =
      (compiled.func.locals.entries.take compiled.func.arity).map (·.type) := by
  obtain ⟨derivation, final, -, hfinal, -, hfunc⟩ := h.body
  have hextends : source.signature.initialTable.entries <+: final.entries := by
    have hgrows := Grammar.extends_blockLocalsAfter (some source.signature.initialTable) derivation
    rw [hfinal] at hgrows
    exact hgrows
  obtain ⟨others, hothers⟩ := hextends
  rw [h.func, hfunc]
  simp [Signature.func, Func.arity, ← hothers, Signature.initialTable]

/-- Every access to a local agrees with the final table of the function. -/
theorem slots (h : source.Reads compiled) :
    ∀ instruction ∈ compiled.code, compiled.func.locals.Types instruction := by
  obtain ⟨derivation, final, -, hfinal, hbody, hfunc⟩ := h.body
  have hlocals : compiled.func.locals = final := by rw [h.func, hfunc, Signature.func]
  intro instruction hmem
  rw [hlocals]
  rw [Compiled.code, hbody, List.mem_append, List.mem_singleton] at hmem
  rcases hmem with hmem | rfl
  · exact Grammar.blockTree_forall_code (Grammar.covers_types final) derivation
      (hfinal ▸ .refl _) compiled.func.entry instruction hmem
  · intro slot type hslot
    cases hslot

end Source.Reads

/-! ## Operations -/

/-- An operation on a builder. -/
inductive Operation (ν : Type) where
  | global (name : String) (type : TypeTag)
  | builtin (native : Builtin ν)
  | reserve (name : String)
  | function (signature : Signature) (body : String)
  | functionOfItems (signature : Signature) (body : List Item)

/-- What an operation answers: the slot of a name, or a function. -/
inductive Answer where
  | slot (slot : Nat)
  | func (func : Func)

/-- What an operation that succeeds has done: it has declared a name, or compiled a function. -/
inductive Effect where
  | declared (name : String)
  | compiled (source : Source)

namespace Effect

/-- The name that is known from then on. -/
def name : Effect → String
  | .declared name => name
  | .compiled source => source.func.name

/-- The function that was compiled. -/
def source? : Effect → Option Source
  | .declared _ => none
  | .compiled source => some source

end Effect

namespace Operation

/-- The name that an operation makes known. -/
def name : Operation ν → String
  | .global name _ | .reserve name => name
  | .builtin native => native.name
  | .function signature _ | .functionOfItems signature _ => signature.name

/-- What an operation has done that gave an answer. -/
def effect : Operation ν → Answer → Effect
  | .function signature body, .func func => .compiled ⟨signature, Token.scan body, func⟩
  | .functionOfItems signature body, .func func => .compiled ⟨signature, body, func⟩
  | operation, _ => .declared operation.name

/-- What operations have done, those that failed left out. -/
def effects (operations : List (Operation ν)) (answers : List (Except CompileError Answer)) :
    List Effect :=
  (operations.zip answers).filterMap fun (operation, answer) =>
    answer.toOption.map operation.effect

end Operation

namespace Builder

/-- Performs an operation. -/
def perform (builder : Builder ν) : Operation ν → Build (Answer × Builder ν)
  | .global name type => do
      let (slot, builder) ← builder.global name type
      return (.slot slot, builder)
  | .builtin native => do
      let (slot, builder) ← builder.builtin native
      return (.slot slot, builder)
  | .reserve name => do
      let (slot, builder) ← builder.reserve name
      return (.slot slot, builder)
  | .function signature body => do
      let (func, builder) ← builder.function signature body
      return (.func func, builder)
  | .functionOfItems signature body => do
      let (func, builder) ← builder.functionOfItems signature body
      return (.func func, builder)

/-- Performs operations one after the other, whatever becomes of each. One that fails leaves the
builder as it is. -/
def performAll (builder : Builder ν) :
    List (Operation ν) → Array Event → List (Except CompileError Answer) × Builder ν
  | [], _ => ([], builder)
  | first :: rest, events =>
      match builder.perform first events with
      | .ok (answer, builder) events =>
          let (answers, builder) := builder.performAll rest events
          (.ok answer :: answers, builder)
      | .error error events =>
          let (answers, builder) := builder.performAll rest events
          (.error error :: answers, builder)

/-- Performs operations one after the other and records what was done. -/
def attemptAll (builder : Builder ν) (operations : List (Operation ν)) (events : Array Event) :
    List Effect × Builder ν :=
  let (answers, builder) := builder.performAll operations events
  (Operation.effects operations answers, builder)

/-- The bodies are those of the functions that were compiled, in order, and the names that are
known are those that were declared. -/
structure Records (builder : Builder ν) (effects : List Effect) (bodies : List Compiled) :
    Prop where
  layout : builder.Layout bodies
  sources : List.Forall₂ Source.Reads (effects.filterMap Effect.source?) bodies
  names : ∀ name, name ∈ builder.globals.entries.map (·.name) ↔ name ∈ effects.map Effect.name

variable {builder builder' : Builder ν} {effects : List Effect} {bodies : List Compiled}

theorem Records.declare {name : String} {type : TypeTag} {value : Value ν} {slot : Nat}
    (h : builder.Records effects bodies)
    (hdeclare : builder.declare name type value = .ok (slot, builder'))
    (hvalue : ∀ func, value ≠ .function func) :
    builder'.Records (effects ++ [.declared name]) bodies := by
  refine ⟨h.layout.declare hdeclare hvalue, ?_, ?_⟩
  · have hnone : [Effect.declared name].filterMap Effect.source? = [] := rfl
    rw [List.filterMap_append, hnone, List.append_nil]
    exact h.sources
  · intro known
    rw [(declare_ok hdeclare).2]
    simp only [List.map_append, List.mem_append, h.names known, List.map_cons, List.map_nil,
      List.mem_singleton, Effect.name]

/-- A function that is stored is known by its name. -/
theorem names_of_store {slot? : Option Nat} {func : Func}
    (hslot : builder.functionSlot? func.name = .ok slot?)
    (hstore : builder.store slot? func = .ok builder') (name : String) :
    name ∈ builder'.globals.entries.map (·.name) ↔
      name ∈ builder.globals.entries.map (·.name) ∨ name = func.name := by
  cases slot? with
  | some slot =>
      cases hstore
      obtain ⟨-, hentry, -⟩ := Tidy.functionSlot?_ok hslot
      have hknown : func.name ∈ builder.globals.entries.map (·.name) :=
        List.mem_map_of_mem (List.mem_of_getElem? hentry)
      constructor
      · exact .inl
      · rintro (h | rfl)
        · exact h
        · exact hknown
  | none =>
      obtain ⟨⟨slot, declared⟩, hdeclare, rfl⟩ := map_eq_ok.1 hstore
      rw [(declare_ok hdeclare).2]
      simp

theorem Records.function {signature : Signature} {items : List Item} {func : Func}
    {events events' : Array Event} (h : builder.Records effects bodies)
    (hfunction : builder.functionOfItems signature items events = .ok (func, builder') events') :
    ∃ compiled, builder'.Records (effects ++ [.compiled ⟨signature, items, func⟩])
      (bodies ++ [compiled]) := by
  obtain ⟨table, tree, locals, _, htable, hblock, hfunc, hlayout⟩ := h.layout.function hfunction
  have hreads := Source.reads_of_block htable hblock builder.code.size
  rw [← hfunc] at hreads
  refine ⟨_, hlayout, ?_, ?_⟩
  · rw [List.filterMap_append]
    exact List.rel_append h.sources (.cons hreads .nil)
  · intro name
    obtain ⟨slot?, _, _, _, _, hslot, -, -, -, hstore⟩ := functionOfItems_ok hfunction
    have hname : func.name = signature.name := by rw [hfunc, Signature.func]
    rw [names_of_store (hname ▸ hslot) hstore, h.names]
    simp [Effect.name]

/-- An operation that succeeds adds its effect to the record. -/
theorem Records.perform {operation : Operation ν} {answer : Answer} {events events' : Array Event}
    (h : builder.Records effects bodies)
    (hperform : builder.perform operation events = .ok (answer, builder') events') :
    ∃ bodies', builder'.Records (effects ++ [operation.effect answer]) bodies' := by
  cases operation with
  | global name type =>
      obtain ⟨⟨slot, declared⟩, _, hlift, hresult⟩ := bind_eq_ok.1 hperform
      cases (pure_eq_ok.1 hresult).1
      exact ⟨bodies, h.declare (liftM_eq_ok.1 hlift).1 (Value.initial_ne_function _)⟩
  | builtin native =>
      obtain ⟨⟨slot, declared⟩, _, hlift, hresult⟩ := bind_eq_ok.1 hperform
      cases (pure_eq_ok.1 hresult).1
      exact ⟨bodies, h.declare (liftM_eq_ok.1 hlift).1 (by simp)⟩
  | reserve name =>
      obtain ⟨⟨slot, declared⟩, _, hlift, hresult⟩ := bind_eq_ok.1 hperform
      cases (pure_eq_ok.1 hresult).1
      exact ⟨bodies, h.declare (liftM_eq_ok.1 hlift).1 (Value.initial_ne_function _)⟩
  | function signature body =>
      obtain ⟨⟨func, compiled⟩, _, hfunction, hresult⟩ := bind_eq_ok.1 hperform
      cases (pure_eq_ok.1 hresult).1
      obtain ⟨compiled, hrecords⟩ := h.function hfunction
      exact ⟨_, hrecords⟩
  | functionOfItems signature body =>
      obtain ⟨⟨func, compiled⟩, _, hfunction, hresult⟩ := bind_eq_ok.1 hperform
      cases (pure_eq_ok.1 hresult).1
      obtain ⟨compiled, hrecords⟩ := h.function hfunction
      exact ⟨_, hrecords⟩

theorem Records.attemptAll (h : builder.Records effects bodies) (operations : List (Operation ν))
    (events : Array Event) :
    ∃ bodies', (builder.attemptAll operations events).2.Records
      (effects ++ (builder.attemptAll operations events).1) bodies' := by
  unfold Builder.attemptAll
  induction operations generalizing builder effects bodies events with
  | nil => exact ⟨bodies, by simpa [performAll, Operation.effects] using h⟩
  | cons first rest ih =>
      unfold performAll
      cases hperform : builder.perform first events with
      | error error events' => exact ih h events'
      | ok result events' =>
          obtain ⟨answer, next⟩ := result
          obtain ⟨bodies', hnext⟩ := h.perform hperform
          obtain ⟨bodies'', hrest⟩ := ih hnext events'
          refine ⟨bodies'', ?_⟩
          rw [List.append_assoc, List.singleton_append] at hrest
          exact hrest

theorem records_empty : Records ({} : Builder ν) [] [] where
  layout := ⟨⟨by simp, rfl, by simp⟩, rfl, rfl, by simp⟩
  sources := .nil
  names := by simp

end Builder

/-! ## Programs -/

/-- Globals, memory and the code of functions, as operations with the given effects leave them. -/
structure Represents (globals : SlotTable) (memory : Array (Value ν))
    (instructions : List Instruction) (effects : List Effect) (bodies : List Compiled) :
    Prop where
  cells : memory.size = globals.size
  named : ∀ (slot : Nat) (func : Func), memory[slot]? = some (.function func) →
    globals.entries[slot]? = some ⟨func.name, .function⟩
  functions : ∀ func, .function func ∈ memory ↔ ∃ compiled ∈ bodies, compiled.func = func
  sources : List.Forall₂ Source.Reads (effects.filterMap Effect.source?) bodies
  code : instructions = bodies.flatMap Compiled.code
  laid : Laid 0 bodies instructions.length
  ends : ∀ compiled ∈ bodies, compiled.code.getLast? = some .ret
  params : ∀ compiled ∈ bodies,
    compiled.func.params = (compiled.func.locals.entries.take compiled.func.arity).map (·.type)
  slots : ∀ compiled ∈ bodies, ∀ instruction ∈ compiled.code,
    compiled.func.locals.Types instruction
  names : ∀ name, name ∈ globals.entries.map (·.name) ↔ name ∈ effects.map Effect.name

theorem Builder.Records.represents {builder : Builder ν} {effects : List Effect}
    {bodies : List Compiled} (h : builder.Records effects bodies) :
    Represents builder.globals builder.memory builder.code.toList effects bodies := by
  have hreads : ∀ compiled ∈ bodies, ∃ source, Source.Reads source compiled := by
    intro compiled hmem
    obtain ⟨index, hlt, rfl⟩ := List.getElem_of_mem hmem
    have hlength := h.sources.length_eq
    exact ⟨_, h.sources.get (hlength ▸ hlt) hlt⟩
  refine ⟨h.layout.tidy.cells, h.layout.tidy.named, h.layout.functions, h.sources, h.layout.code,
    ?_, ?_, ?_, ?_, h.names⟩
  · rw [Array.length_toList]
    exact h.layout.laid
  · intro compiled _
    simp [Compiled.code]
  · intro compiled hmem
    obtain ⟨source, hsource⟩ := hreads compiled hmem
    exact hsource.params
  · intro compiled hmem
    obtain ⟨source, hsource⟩ := hreads compiled hmem
    exact hsource.slots

/-- Building a program puts the top-level code behind the functions and changes nothing else. -/
theorem Builder.Records.build {builder : Builder ν} {effects : List Effect}
    {bodies : List Compiled} {main : List Item} {program : Program ν} {events events' : Array Event}
    (h : builder.Records effects bodies)
    (hbuild : builder.buildOfItems main events = .ok program events') :
    Represents program.globals program.memory (program.code.toList.take program.entry) effects
        bodies ∧
      program.entry = (bodies.flatMap Compiled.code).length ∧
      ∀ instruction ∈ program.mainCode, instruction.usesFrame = false := by
  obtain ⟨tree, _, _, -, hlayout⟩ := h.layout.build hbuild
  obtain ⟨_, _, _, -, hparts⟩ := buildOfItems_ok hbuild
  have hrepresents := h.represents
  refine ⟨?_, ?_, ?_⟩
  · have hfront : program.code.toList.take program.entry = builder.code.toList := by
      rw [hparts]
      simp
    rw [hfront, hparts]
    exact hrepresents
  · rw [← hrepresents.code, Array.length_toList, hparts]
  · rw [hlayout.mainCode]
    exact hlayout.topLevel

namespace Machine

variable [Host ν] {program : Program ν} {machine machine' : Machine ν}

theorem Moves.size_memory {instruction : Instruction}
    (h : Moves program machine instruction machine') :
    machine'.memory.size = machine.memory.size := by
  cases h with
  | assignGlobal => simp
  | load | setLocal | binary | pop | jumpIfZero | builtin | function | ret => rfl

/-- Runs never add or remove memory cells. -/
theorem Reaches.size_memory {output : Sink} {calls : List Func}
    (h : Reaches program output machine calls) : machine.memory.size = program.memory.size := by
  induction h with
  | start => rfl
  | @step machine calls reaches ih =>
      cases hstep : machine.step program with
      | running next =>
          obtain ⟨instruction, -, hmoves⟩ := moves_of_step hstep
          exact hmoves.size_memory.trans ih
      | stopped outcome next =>
          have hmemory := (kept_of_step hstep).memory
          simp only [Progress.machine, hmemory, ih]

/-- A name is unresolved only if it has no cell. -/
theorem Fails.unresolved {instruction : Instruction} {name : String}
    (h : Fails program machine instruction (.unresolvedName name) machine') :
    machine.global? program name = none := by
  cases h with
  | loadUnresolved unknown => exact unknown
  | assignUnresolved top unknown => exact unknown

theorem unknown_of_unresolved (hcells : program.memory.size = program.globals.size)
    {output : Sink} {calls : List Func} (hreaches : Reaches program output machine calls)
    {index : Nat} {name : String}
    (hstep : machine.step program = .stopped (.failed ⟨index, .unresolvedName name⟩) machine') :
    name ∉ program.globals.entries.map (·.name) := by
  obtain ⟨-, instruction, -, hfails⟩ := fails_of_step hstep
  have hnone := hfails.unresolved
  rw [← SlotTable.slot?_eq_none]
  cases hslot : program.globals.slot? name with
  | none => rfl
  | some slot =>
      -- a declared name has a cell, and no run takes it away
      have hentry := SlotTable.getElem?_of_slot? hslot
      obtain ⟨found, hfound, -⟩ := Option.map_eq_some_iff.1 hentry
      obtain ⟨hlt, -⟩ := List.getElem?_eq_some_iff.1 hfound
      rw [global?, hslot, Option.bind_some, Array.getElem?_eq_none_iff, hreaches.size_memory,
        hcells] at hnone
      exact absurd hlt (Nat.not_lt.2 hnone)

end Machine

namespace Builder

/-- Operations on a builder and the program that is built from it. -/
theorem represents_of_attempts [Host ν] (operations : List (Operation ν)) (events : Array Event) :
    ∃ effects builder bodies, attemptAll {} operations events = (effects, builder) ∧
      Represents builder.globals builder.memory builder.code.toList effects bodies ∧
      ∀ (main : List Item) (events events' : Array Event) (program : Program ν),
        builder.buildOfItems main events = .ok program events' →
        Represents program.globals program.memory (program.code.toList.take program.entry)
          effects bodies ∧
        program.entry = (bodies.flatMap Compiled.code).length ∧
        (∀ instruction ∈ program.mainCode, instruction.usesFrame = false) ∧
        ∀ (output : Sink) (machine after : Machine ν) (calls : List Func) (index : Nat)
          (name : String), Machine.Reaches program output machine calls →
          machine.step program = .stopped (.failed ⟨index, .unresolvedName name⟩) after →
          name ∉ effects.map Effect.name := by
  obtain ⟨bodies, hrecords⟩ := records_empty.attemptAll operations events
  rw [List.nil_append] at hrecords
  refine ⟨_, _, bodies, (Prod.eta _).symm, hrecords.represents, ?_⟩
  intro main events events' program hbuild
  obtain ⟨hrepresents, hentry, hmain⟩ := hrecords.build hbuild
  refine ⟨hrepresents, hentry, hmain, ?_⟩
  intro output machine after calls index name hreaches hstep
  rw [← hrepresents.names]
  exact Machine.unknown_of_unresolved hrepresents.cells hreaches hstep

theorem represents_after_failures :
    ∃ (operations : List (Operation Native)) (effects : List Effect) (builder : Builder Native)
      (bodies : List Compiled) (program : Program Native) (events : Array Event)
      (machine after : Machine Native),
      attemptAll {} operations #[] = (effects, builder) ∧
      operations.length = 5 ∧ effects.map Effect.name = ["x", "g", "f"] ∧
      builder.buildOfItems (Token.scan "y = x") #[] = .ok program events ∧
      Represents program.globals program.memory (program.code.toList.take program.entry)
        effects bodies ∧
      program.entry = 5 ∧
      Machine.Reaches program {} machine [] ∧
      machine.step program = .stopped (.failed ⟨6, .unresolvedName "y"⟩) after ∧
      "y" ∉ effects.map Effect.name := by
  let signature : Signature := { name := "f", params := [⟨"n", .int⟩], locals := [⟨"m", .string⟩] }
  let operations : List (Operation Native) :=
    [.global "x" .int, .global "x" .string, .reserve "g",
      .function signature "local k int k = n x = k", .function { name := "h" } "x = ("]
  let func : Func := ⟨"f", [.int], none, 0, ⟨[⟨"n", .int⟩, ⟨"m", .string⟩, ⟨"k", .int⟩]⟩⟩
  let program : Program Native :=
    { code := #[.loadLocal 0 .int, .setLocal 2 .int, .loadLocal 2 .int, .assignGlobal "x", .ret,
        .loadGlobal "x", .assignGlobal "y"]
      globals := ⟨[⟨"x", .int⟩, ⟨"g", .function⟩, ⟨"f", .function⟩]⟩
      memory := #[.int 0, .int 0, .function func]
      entry := 5 }
  let machine : Machine Native := { pc := 6, stack := #[.int 0], memory := program.memory }
  obtain ⟨effects, builder, bodies, hattempt, -, hbuilds⟩ := represents_of_attempts operations #[]
  have hnames : (attemptAll {} operations #[]).1.map Effect.name = ["x", "g", "f"] := by cbv
  have hbuild : (attemptAll {} operations #[]).2.buildOfItems (Token.scan "y = x") #[] =
      .ok program #[.mainCompiled 5 7] := by cbv
  rw [hattempt] at hnames hbuild
  have hreaches : Machine.Reaches program {} machine [] := .step .start
  have hstep : machine.step program = .stopped (.failed ⟨6, .unresolvedName "y"⟩)
      { machine with stack := #[] } := by cbv
  obtain ⟨hrepresents, -, -, hunknown⟩ := hbuilds _ _ _ _ hbuild
  exact ⟨operations, effects, builder, bodies, program, _, machine, _, hattempt, rfl, hnames,
    hbuild, hrepresents, rfl, hreaches, hstep, hunknown _ _ _ _ _ _ hreaches hstep⟩

end Builder

end StackScript
