import StackScript.Proofs.Layout

/-!
# What builders make

Every operation of a builder keeps its bodies in a row and its functions in the cells of their own
names, so every program that comes out of a builder or a script has the layout of its functions and
its top-level code.
-/

namespace StackScript

variable {ν : Type}

/-- A result that needs no state succeeds in every state and leaves it alone. -/
theorem liftM_eq_ok {ε σ α : Type} {computed : Except ε α} {result : α} {state state' : σ} :
    (liftM computed : EStateM ε σ α) state = .ok result state' ↔
      computed = .ok result ∧ state' = state := by
  cases computed with
  | ok value =>
      rw [Except.ok.injEq, eq_comm (a := state')]
      exact pure_eq_ok
  | error error =>
      rw [iff_false_right (by simp)]
      exact throw_ne_ok

theorem map_eq_ok {ε α β : Type} {computed : Except ε α} {f : α → β} {result : β} :
    computed.map f = .ok result ↔ ∃ value, computed = .ok value ∧ f value = result := by
  cases computed <;> simp [Except.map]

namespace SlotTable

variable {table : SlotTable} {name : String} {slot : Nat}

theorem getElem?_of_slot? (h : table.slot? name = some slot) :
    (table.entries[slot]?).map (·.name) = some name := by
  obtain ⟨hlt, hname, -⟩ := List.findIdx?_eq_some_iff_getElem.1 h
  simp [List.getElem?_eq_getElem hlt, of_decide_eq_true hname]

theorem find?_eq_some {found : Variable} (h : table.find? name = some (slot, found)) :
    table.slot? name = some slot ∧ table.entries[slot]? = some found ∧ found.name = name := by
  unfold find? at h
  split at h
  · cases h
  next other hslot =>
    obtain ⟨entry, hentry, hfound⟩ := Option.map_eq_some_iff.1 h
    cases hfound
    have hname := getElem?_of_slot? hslot
    rw [hentry] at hname
    exact ⟨hslot, hentry, Option.some.inj hname⟩

theorem slot?_eq_none : table.slot? name = none ↔ name ∉ table.entries.map (·.name) := by
  simp [slot?, List.findIdx?_eq_none_iff]

theorem declare_ok {new : Variable} {table' : SlotTable}
    (h : table.declare new = .ok (slot, table')) :
    table.slot? new.name = none ∧ slot = table.size ∧ table' = ⟨table.entries ++ [new]⟩ := by
  unfold declare at h
  split at h <;> cases h
  exact ⟨by assumption, rfl, rfl⟩

end SlotTable

/-- The function of a signature whose body starts at `entry` and has the given locals. -/
def Signature.func (signature : Signature) (entry : Nat) (locals : SlotTable) : Func :=
  { name := signature.name
    params := signature.params.map (·.type)
    returns := signature.returns
    entry
    locals }

namespace Builder

/-- Each name is declared once and has one cell, and a function stands in the cell that is declared
for a function of its name. -/
structure Tidy (builder : Builder ν) : Prop where
  distinct : (builder.globals.entries.map (·.name)).Nodup
  cells : builder.memory.size = builder.globals.entries.length
  named : ∀ (slot : Nat) (func : Func), builder.memory[slot]? = some (.function func) →
    builder.globals.entries[slot]? = some ⟨func.name, .function⟩

theorem declare_ok {builder builder' : Builder ν} {name : String} {type : TypeTag}
    {value : Value ν} {slot : Nat} (h : builder.declare name type value = .ok (slot, builder')) :
    builder.globals.slot? name = none ∧
      builder' = { builder with
        globals := ⟨builder.globals.entries ++ [⟨name, type⟩]⟩
        memory := builder.memory.push value } := by
  unfold declare at h
  split at h <;> cases h
  next hdeclare =>
    obtain ⟨hnone, rfl, rfl⟩ := SlotTable.declare_ok hdeclare
    exact ⟨hnone, rfl⟩

namespace Tidy

variable {builder builder' : Builder ν} {name : String} {type : TypeTag} {value : Value ν}
  {slot : Nat} {func : Func}

theorem declare (h : builder.Tidy)
    (hdeclare : builder.declare name type value = .ok (slot, builder'))
    (hvalue : ∀ func, value = .function func → func.name = name ∧ type = .function) :
    builder'.Tidy := by
  obtain ⟨hnew, rfl⟩ := declare_ok hdeclare
  have hcells := h.cells
  refine ⟨?_, by simp [hcells], ?_⟩
  · simp only [List.map_append, List.map_cons, List.map_nil]
    refine List.nodup_append.2 ⟨h.distinct, by simp, ?_⟩
    rintro a ha b hb rfl
    exact SlotTable.slot?_eq_none.1 hnew (List.mem_singleton.1 hb ▸ ha)
  · intro slot func hslot
    simp only [Array.getElem?_push] at hslot
    split at hslot
    next hsize =>
      obtain ⟨rfl, rfl⟩ := hvalue func (Option.some.inj hslot)
      simp [hsize, hcells]
    next hsize =>
      have hnamed := h.named slot func hslot
      obtain ⟨hlt, -⟩ := Array.getElem?_eq_some_iff.1 hslot
      rwa [List.getElem?_append_left (hcells ▸ hlt)]

/-- A slot that is free for a function is reserved under its name and holds no function. -/
theorem functionSlot?_ok (hslot : builder.functionSlot? name = .ok (some slot)) :
    builder.globals.slot? name = some slot ∧
      builder.globals.entries[slot]? = some ⟨name, .function⟩ ∧
      ∀ func, builder.memory[slot]? ≠ some (.function func) := by
  unfold functionSlot? at hslot
  cases hfind : builder.globals.find? name with
  | none => simp [hfind] at hslot
  | some found =>
      obtain ⟨found, entry⟩ := found
      simp only [hfind] at hslot
      split at hslot <;> cases hslot
      next hfree =>
        obtain ⟨hfound, hentry, hname⟩ := SlotTable.find?_eq_some hfind
        obtain rfl : entry = ⟨name, .function⟩ := by rw [← hname, ← hfree.1]
        exact ⟨hfound, hentry, fun func hfunc => hfree.2 (by simp [hfunc, Value.function?])⟩

theorem store_some (h : builder.Tidy) (hslot : builder.functionSlot? func.name = .ok (some slot)) :
    Tidy { builder with memory := builder.memory.setIfInBounds slot (.function func) } := by
  obtain ⟨-, hentry, -⟩ := functionSlot?_ok hslot
  refine ⟨h.distinct, by simp [h.cells], fun slot' func' hfunc => ?_⟩
  rw [Array.getElem?_setIfInBounds] at hfunc
  split at hfunc
  next heq =>
    split at hfunc <;> cases hfunc
    exact heq ▸ hentry
  next => exact h.named slot' func' hfunc

/-- Filling a free slot adds the function to those in memory. -/
theorem mem_store_some (h : builder.Tidy)
    (hslot : builder.functionSlot? func.name = .ok (some slot)) (other : Func) :
    .function other ∈ builder.memory.setIfInBounds slot (.function func) ↔
      .function other ∈ builder.memory ∨ other = func := by
  obtain ⟨-, hentry, hfree⟩ := functionSlot?_ok hslot
  have hlt : slot < builder.memory.size := by
    rw [h.cells]
    exact (List.getElem?_eq_some_iff.1 hentry).1
  simp only [Array.mem_iff_getElem?, Array.getElem?_setIfInBounds]
  constructor
  · rintro ⟨slot', hslot'⟩
    split at hslot'
    · cases hslot'
      exact .inr rfl
    · exact .inl ⟨slot', hslot'⟩
  · rintro (⟨slot', hslot'⟩ | rfl)
    · refine ⟨slot', ?_⟩
      rw [if_neg, hslot']
      rintro rfl
      exact hfree other hslot'
    · exact ⟨slot, by simp [hlt]⟩

theorem mem_declare (hdeclare : builder.declare name type value = .ok (slot, builder'))
    (other : Func) :
    .function other ∈ builder'.memory ↔
      .function other ∈ builder.memory ∨ value = .function other := by
  obtain ⟨-, rfl⟩ := declare_ok hdeclare
  rw [Array.mem_push, eq_comm (a := value)]

theorem store (h : builder.Tidy) {slot? : Option Nat}
    (hslot : builder.functionSlot? func.name = .ok slot?)
    (hstore : builder.store slot? func = .ok builder') :
    builder'.Tidy ∧ builder'.code = builder.code ∧
      ∀ other, .function other ∈ builder'.memory ↔
        .function other ∈ builder.memory ∨ other = func := by
  cases slot? with
  | some slot =>
      cases hstore
      exact ⟨h.store_some hslot, rfl, h.mem_store_some hslot⟩
  | none =>
      simp only [Builder.store] at hstore
      cases hdeclare : builder.declare func.name .function (.function func) with
      | error error =>
          rw [hdeclare] at hstore
          cases hstore
      | ok declared =>
          obtain ⟨slot, declared⟩ := declared
          rw [hdeclare] at hstore
          cases hstore
          refine ⟨h.declare hdeclare ?_, ?_, fun other => ?_⟩
          · rintro _ ⟨⟩
            exact ⟨rfl, rfl⟩
          · rw [(declare_ok hdeclare).2]
          · rw [mem_declare hdeclare, Value.function.injEq, eq_comm (a := other)]

end Tidy

/-- The code is the code of some functions with their bodies in a row, and these are the functions
in memory. -/
structure Layout (builder : Builder ν) (bodies : List Compiled) : Prop where
  tidy : builder.Tidy
  code : builder.code.toList = bodies.flatMap Compiled.code
  laid : Laid 0 bodies builder.code.size
  functions : ∀ func, .function func ∈ builder.memory ↔ ∃ compiled ∈ bodies, compiled.func = func

/-- What compiling a function does: the body is read with a table of its own, its code and a
return are appended, and the function is put into its slot. -/
theorem functionOfItems_ok {builder builder' : Builder ν} {signature : Signature}
    {body : List Item} {func : Func} {events events' : Array Event}
    (h : builder.functionOfItems signature body events = .ok (func, builder') events') :
    ∃ slot? table tree locals events'',
      builder.functionSlot? signature.name = .ok slot? ∧ signature.table = .ok table ∧
      Build.block body (some table) builder.code.size events = .ok (tree, locals) events'' ∧
      func = signature.func builder.code.size (locals.getD {}) ∧
      Builder.store
        { builder with
          code := (builder.code ++ (Block.code builder.code.size tree).toArray).push .ret }
        slot? func = .ok builder' := by
  obtain ⟨slot?, _, hfree, hsignature⟩ := bind_eq_ok.1 h
  obtain ⟨hslot, rfl⟩ := liftM_eq_ok.1 hfree
  obtain ⟨table, _, hlocals, hbody⟩ := bind_eq_ok.1 hsignature
  obtain ⟨htable, rfl⟩ := liftM_eq_ok.1 hlocals
  obtain ⟨⟨code, after⟩, _, happend, hreport⟩ := bind_eq_ok.1 hbody
  obtain ⟨⟨tree, locals⟩, _, hblock, hcode⟩ := bind_eq_ok.1 happend
  obtain ⟨hcode, rfl⟩ := pure_eq_ok.1 hcode
  cases hcode
  obtain ⟨_, _, -, hstored⟩ := bind_eq_ok.1 hreport
  obtain ⟨stored, _, hput, hresult⟩ := bind_eq_ok.1 hstored
  obtain ⟨hstore, rfl⟩ := liftM_eq_ok.1 hput
  cases (pure_eq_ok.1 hresult).1
  exact ⟨slot?, table, tree, after, _, hslot, htable, hblock, rfl, hstore⟩

theorem Layout.declare {builder builder' : Builder ν} {bodies : List Compiled} {name : String}
    {type : TypeTag} {value : Value ν} {slot : Nat} (h : builder.Layout bodies)
    (hdeclare : builder.declare name type value = .ok (slot, builder'))
    (hvalue : ∀ func, value ≠ .function func) : builder'.Layout bodies := by
  have htidy := h.tidy.declare hdeclare fun func hfunc => absurd hfunc (hvalue func)
  refine ⟨htidy, ?_, ?_, fun func => ?_⟩
  · rw [(declare_ok hdeclare).2]
    exact h.code
  · rw [(declare_ok hdeclare).2]
    exact h.laid
  · rw [Tidy.mem_declare hdeclare, h.functions, or_iff_left (hvalue func)]

theorem Layout.function {builder builder' : Builder ν} {bodies : List Compiled}
    {signature : Signature} {body : List Item} {func : Func} {events events' : Array Event}
    (h : builder.Layout bodies)
    (hfunction : builder.functionOfItems signature body events = .ok (func, builder') events') :
    ∃ table tree locals events'', signature.table = .ok table ∧
      Build.block body (some table) builder.code.size events = .ok (tree, locals) events'' ∧
      func = signature.func builder.code.size (locals.getD {}) ∧
      builder'.Layout (bodies ++ [⟨func, tree⟩]) := by
  obtain ⟨slot?, table, tree, locals, _, hslot, htable, hblock, hfunc, hstore⟩ :=
    functionOfItems_ok hfunction
  have hentry : func.entry = builder.code.size := by rw [hfunc, Signature.func]
  have hname : func.name = signature.name := by rw [hfunc, Signature.func]
  -- appending code does not touch the globals and their cells
  have htidy : Tidy { builder with
      code := (builder.code ++ (Block.code builder.code.size tree).toArray).push .ret } :=
    ⟨h.tidy.distinct, h.tidy.cells, h.tidy.named⟩
  obtain ⟨htidy, hcode, hfunctions⟩ := htidy.store (hname ▸ hslot) hstore
  refine ⟨table, tree, locals, _, htable, hblock, hfunc, htidy, ?_, ?_, fun other => ?_⟩
  · simp [hcode, h.code, Compiled.code, hentry]
  · have hlaid : Laid 0 (bodies ++ [⟨func, tree⟩]) _ := h.laid.append hentry
    have hsize : builder'.code.size = Compiled.last ⟨func, tree⟩ + 1 := by
      simp [hcode, Compiled.last, Block.length_code, hentry, Nat.add_assoc]
    exact hsize ▸ hlaid
  · rw [hfunctions other, h.functions other]
    simp [or_and_right, exists_or, eq_comm]

theorem Layout.named {builder : Builder ν} {bodies : List Compiled} (h : builder.Layout bodies)
    {compiled other : Compiled} (hmem : compiled ∈ bodies) (hother : other ∈ bodies)
    (hname : compiled.func.name = other.func.name) : compiled = other := by
  have hcompiled := (h.functions compiled.func).2 ⟨compiled, hmem, rfl⟩
  have hother' := (h.functions other.func).2 ⟨other, hother, rfl⟩
  obtain ⟨slot, hslot⟩ := Array.mem_iff_getElem?.1 hcompiled
  obtain ⟨slot', hslot'⟩ := Array.mem_iff_getElem?.1 hother'
  -- the two cells have the same name, so they are one cell
  have hentry := congrArg (Option.map (·.name)) (h.tidy.named slot _ hslot)
  have hentry' := congrArg (Option.map (·.name)) (h.tidy.named slot' _ hslot')
  rw [← List.getElem?_map] at hentry hentry'
  have hsame : slot = slot' := by
    obtain ⟨hlt, -⟩ := List.getElem?_eq_some_iff.1 hentry
    exact (List.getElem?_inj hlt h.tidy.distinct).1 (hentry.trans (hname ▸ hentry'.symm))
  subst hsame
  have hfunc : compiled.func = other.func :=
    Value.function.inj (Option.some.inj (hslot.symm.trans hslot'))
  exact h.laid.eq_of_entry_eq hmem hother (congrArg Func.entry hfunc)

theorem buildOfItems_ok {builder : Builder ν} {main : List Item} {program : Program ν}
    {events events' : Array Event} (h : builder.buildOfItems main events = .ok program events') :
    ∃ tree locals events'',
      Build.block main none builder.code.size events = .ok (tree, locals) events'' ∧
      program = { code := builder.code ++ (Block.code builder.code.size tree).toArray
                  globals := builder.globals
                  memory := builder.memory
                  entry := builder.code.size } := by
  obtain ⟨⟨code, after⟩, _, happend, hreport⟩ := bind_eq_ok.1 h
  obtain ⟨tree, locals, hblock, hcode⟩ := Build.append_eq_ok.1 happend
  cases hcode
  obtain ⟨_, _, -, hresult⟩ := bind_eq_ok.1 hreport
  exact ⟨tree, after, _, hblock, (pure_eq_ok.1 hresult).1.symm⟩

/-- A block that is read without a table of locals works on no locals. -/
theorem usesFrame_of_block {items : List Item} {start : Nat} {events events' : Array Event}
    {tree : Block} {locals : Option SlotTable}
    (h : Build.block items none start events = .ok (tree, locals) events') (place : Nat) :
    ∀ instruction ∈ Block.code place tree, instruction.usesFrame = false := by
  obtain ⟨derivation, -, rfl, -⟩ := Build.block_ok h
  exact Grammar.blockTree_usesFrame derivation place

theorem Layout.build {builder : Builder ν} {bodies : List Compiled} {main : List Item}
    {program : Program ν} {events events' : Array Event} (h : builder.Layout bodies)
    (hbuild : builder.buildOfItems main events = .ok program events') :
    ∃ tree locals events'',
      Build.block main none builder.code.size events = .ok (tree, locals) events'' ∧
      program.Layout bodies tree := by
  obtain ⟨tree, locals, _, hblock, rfl⟩ := buildOfItems_ok hbuild
  refine ⟨tree, locals, _, hblock, ?_, h.laid, h.functions, ?_, usesFrame_of_block hblock _⟩
  · simp [h.code]
  · intro compiled hmem other hother hname
    exact h.named hmem hother hname

/-- The builders that operations lead to. An operation that fails gives no new builder. -/
inductive Made : Builder ν → Prop
  | empty : Made {}
  | global {builder builder' : Builder ν} {name : String} {type : TypeTag} {slot : Nat}
      (made : Made builder) (declares : builder.global name type = .ok (slot, builder')) :
      Made builder'
  | builtin {builder builder' : Builder ν} {native : Builtin ν} {slot : Nat}
      (made : Made builder) (declares : builder.builtin native = .ok (slot, builder')) :
      Made builder'
  | reserve {builder builder' : Builder ν} {name : String} {slot : Nat}
      (made : Made builder) (declares : builder.reserve name = .ok (slot, builder')) :
      Made builder'
  | function {builder builder' : Builder ν} {signature : Signature} {body : List Item}
      {func : Func} {events events' : Array Event} (made : Made builder)
      (compiles : builder.functionOfItems signature body events = .ok (func, builder') events') :
      Made builder'

theorem Made.exists_layout {builder : Builder ν} (h : builder.Made) :
    ∃ bodies, builder.Layout bodies := by
  induction h with
  | empty => exact ⟨[], ⟨by simp, rfl, by simp⟩, rfl, rfl, by simp⟩
  | global made declares ih =>
      obtain ⟨bodies, hbodies⟩ := ih
      exact ⟨bodies, hbodies.declare declares (Value.initial_ne_function _)⟩
  | builtin made declares ih =>
      obtain ⟨bodies, hbodies⟩ := ih
      exact ⟨bodies, hbodies.declare declares (by simp)⟩
  | reserve made declares ih =>
      obtain ⟨bodies, hbodies⟩ := ih
      exact ⟨bodies, hbodies.declare declares (Value.initial_ne_function _)⟩
  | function made compiles ih =>
      obtain ⟨bodies, hbodies⟩ := ih
      obtain ⟨_, tree, _, _, -, -, -, hlayout⟩ := hbodies.function compiles
      exact ⟨_, hlayout⟩

end Builder

namespace Script

variable {builder builder' : Builder ν} {events events' : Array Event}

theorem made_of_register {declaration : Declaration} (h : builder.Made)
    (hregister : builder.register declaration = .ok builder') : builder'.Made := by
  match declaration with
  | .variable name type =>
      obtain ⟨⟨slot, declared⟩, hdeclared, rfl⟩ := map_eq_ok.1 hregister
      exact .global h hdeclared
  | .function signature body =>
      obtain ⟨⟨slot, declared⟩, hdeclared, rfl⟩ := map_eq_ok.1 hregister
      exact .reserve h hdeclared

theorem made_of_addBuiltins {natives : List (Builtin ν)} (h : builder.Made)
    (hadd : builder.addBuiltins natives = .ok builder') : builder'.Made := by
  induction natives generalizing builder with
  | nil =>
      cases hadd
      exact h
  | cons first rest ih =>
      unfold Builder.addBuiltins at hadd
      split at hadd
      · cases hadd
      next slot added hbuiltin => exact ih (.builtin h hbuiltin) hadd

theorem made_of_declarations {limit bound : Nat} {state state' : Parser.State}
    {declared : List Declaration} (h : builder.Made)
    (hparse : declarations limit bound builder state = .ok (declared, builder') state') :
    builder'.Made := by
  induction bound generalizing builder state state' declared with
  | zero =>
      cases (pure_eq_ok.1 hparse).1
      exact h
  | succ bound ih =>
      obtain ⟨first?, _, -, hrest⟩ := bind_eq_ok.1 hparse
      cases first? with
      | none =>
          cases (pure_eq_ok.1 hrest).1
          exact h
      | some first =>
          obtain ⟨registered, _, hregister, hrest⟩ := bind_eq_ok.1 hrest
          obtain ⟨⟨others, after⟩, _, hothers, hresult⟩ := bind_eq_ok.1 hrest
          cases (pure_eq_ok.1 hresult).1
          exact ih (made_of_register h (liftM_eq_ok.1 hregister).1) hothers

theorem made_of_compileFunctions {declared : List Declaration} (h : builder.Made)
    (hcompile : compileFunctions builder declared events = .ok builder' events') :
    builder'.Made := by
  induction declared generalizing builder events with
  | nil =>
      cases (pure_eq_ok.1 hcompile).1
      exact h
  | cons first rest ih =>
      match first with
      | .variable name type => exact ih h hcompile
      | .function signature body =>
          obtain ⟨⟨func, compiled⟩, _, hfunction, hrest⟩ := bind_eq_ok.1 hcompile
          exact ih (.function h hfunction) hrest

/-- What it takes for a script to compile: its tokens start with declarations, whose functions
compile in order, and what follows is the top-level code. -/
theorem compileWith_ok {source : String} {program : Program ν}
    (h : compileWith builder source events = .ok program events') :
    ∃ tokens declared registered state compiled events'',
      Token.tokenize source = .ok tokens ∧
      declarations tokens.length tokens.length builder { rest := tokens.map .ok, events } =
        .ok (declared, registered) state ∧
      compileFunctions registered declared state.events = .ok compiled events'' ∧
      compiled.buildOfItems state.rest events'' = .ok program events' := by
  obtain ⟨tokens, _, hlift, hdeclared⟩ := bind_eq_ok.1 h
  obtain ⟨htokens, rfl⟩ := liftM_eq_ok.1 hlift
  obtain ⟨⟨⟨declared, registered⟩, state⟩, _, hread, hfunctions⟩ := bind_eq_ok.1 hdeclared
  obtain ⟨hparse, rfl⟩ := Build.parse_eq_ok.1 hread
  obtain ⟨compiled, events'', hcompile, hbuild⟩ := bind_eq_ok.1 hfunctions
  rw [List.length_map] at hparse
  refine ⟨tokens, declared, registered, state, compiled, events'', ?_, hparse, hcompile, hbuild⟩
  cases htokenize : Token.tokenize source with
  | error error =>
      rw [htokenize] at htokens
      cases htokens
  | ok tokens' =>
      rw [htokenize] at htokens
      cases htokens
      rfl

theorem exists_made_of_compileWith {source : String} {program : Program ν} (h : builder.Made)
    (hcompile : compileWith builder source events = .ok program events') :
    ∃ (made : Builder ν) (main : List Item) (events events' : Array Event), made.Made ∧
      made.buildOfItems main events = .ok program events' := by
  obtain ⟨tokens, declared, registered, state, compiled, _, -, hdeclared, hfunctions, hbuild⟩ :=
    compileWith_ok hcompile
  have hregistered := made_of_declarations h hdeclared
  exact ⟨compiled, _, _, _, made_of_compileFunctions hregistered hfunctions, hbuild⟩

end Script

namespace Program

/-- The programs that come out of a builder or a script. -/
inductive Built : Program ν → Prop
  | build {builder : Builder ν} {main : List Item} {events events' : Array Event}
      {program : Program ν} (made : builder.Made)
      (builds : builder.buildOfItems main events = .ok program events') : Built program
  | script {builder : Builder ν} {source : String} {events events' : Array Event}
      {program : Program ν} (made : builder.Made)
      (compiles : Script.compileWith builder source events = .ok program events') : Built program
  | compile {natives : List (Builtin ν)} {source : String} {events events' : Array Event}
      {program : Program ν}
      (compiles : Script.compile natives source events = .ok program events') : Built program

theorem Built.exists_layout {program : Program ν} (h : program.Built) :
    ∃ bodies main, program.Layout bodies main := by
  have hbuilds : ∃ (builder : Builder ν) (main : List Item) (events events' : Array Event),
      builder.Made ∧ builder.buildOfItems main events = .ok program events' := by
    cases h with
    | build made builds => exact ⟨_, _, _, _, made, builds⟩
    | script made compiles => exact Script.exists_made_of_compileWith made compiles
    | compile compiles =>
        obtain ⟨builder, _, hlift, hcompile⟩ := bind_eq_ok.1 compiles
        have hmade := Script.made_of_addBuiltins .empty (liftM_eq_ok.1 hlift).1
        exact Script.exists_made_of_compileWith hmade hcompile
  obtain ⟨builder, main, events, events', hmade, hbuild⟩ := hbuilds
  obtain ⟨bodies, hlayout⟩ := hmade.exists_layout
  obtain ⟨tree, _, _, -, hprogram⟩ := hlayout.build hbuild
  exact ⟨bodies, tree, hprogram⟩

end Program

end StackScript
