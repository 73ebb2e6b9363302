import Mathlib.Data.List.Nodup
import StackScript.Proofs.ScriptTree

/-!
# Which scripts compile

A script compiles if and only if it can be read as a tree and all its globals, the builtins
included, have different names.
-/

namespace StackScript

variable {ν : Type}

/-- The names of the globals. -/
def SlotTable.names (table : SlotTable) : List String :=
  table.entries.map (·.name)

namespace Builder

variable {builder : Builder ν}

/-- A new name can be declared. -/
theorem declare_of_new {name : String} (hnew : name ∉ builder.globals.names) (type : TypeTag)
    (value : Value ν) :
    builder.declare name type value =
      .ok (builder.globals.size, { builder with
        globals := ⟨builder.globals.entries ++ [⟨name, type⟩]⟩
        memory := builder.memory.push value }) := by
  unfold declare SlotTable.declare
  rw [SlotTable.slot?_eq_none.2 hnew]

/-- Builtins with new names can be added. -/
theorem addBuiltins_of_distinct {natives : List (Builtin ν)}
    (hdistinct : (builder.globals.names ++ natives.map (·.name)).Nodup) :
    ∃ builder', builder.addBuiltins natives = .ok builder' := by
  induction natives generalizing builder with
  | nil => exact ⟨builder, rfl⟩
  | cons first rest ih =>
      have hnew : first.name ∉ builder.globals.names := by
        intro hknown
        exact (List.disjoint_of_nodup_append hdistinct) hknown List.mem_cons_self
      unfold addBuiltins builtin
      rw [declare_of_new hnew]
      apply ih
      rw [List.map_cons, List.append_cons] at hdistinct
      simpa [SlotTable.names] using hdistinct

theorem register_of_new {declaration : Declaration}
    (hnew : declaration.global.name ∉ builder.globals.names) :
    ∃ builder', builder.register declaration = .ok builder' := by
  match declaration with
  | .variable name type =>
      have hdeclare := declare_of_new hnew type (Value.initial type)
      exact ⟨_, map_eq_ok.2 ⟨_, hdeclare, rfl⟩⟩
  | .function signature body =>
      have hdeclare := declare_of_new hnew .function (Value.initial .function)
      exact ⟨_, map_eq_ok.2 ⟨_, hdeclare, rfl⟩⟩

/-- The slot of a function that is awaited is free. -/
theorem Awaits.functionSlot? {known : List Variable} {values : List (Value ν)}
    {signature : Signature} {body : List Item} {rest : List Declaration}
    (h : builder.Awaits known values (.function signature body :: rest))
    (hdistinct : builder.globals.names.Nodup) :
    builder.functionSlot? signature.name = .ok (some known.length) := by
  have hvalue : builder.memory[known.length]? = some (.initial .function) := by
    rw [← Array.getElem?_toList, h.memory, ← h.length]
    simp [Declaration.global]
  simp [Builder.functionSlot?, SlotTable.find?, h.slot? hdistinct, h.entry, hvalue, Value.initial,
    Value.function?]

/-- A function with a free slot compiles if its body can be read. -/
theorem functionOfItems_of_block {signature : Signature} {body : List Item} {slot : Nat}
    {table : SlotTable} {tree : Block} {locals : Option SlotTable} {events middle : Array Event}
    (hslot : builder.functionSlot? signature.name = .ok (some slot))
    (htable : signature.table = .ok table)
    (hblock : Build.block body (some table) builder.code.size events = .ok (tree, locals) middle) :
    ∃ func builder' events',
      builder.functionOfItems signature body events = .ok (func, builder') events' := by
  have happend := Build.append_eq_ok.2 ⟨tree, locals, hblock, rfl⟩
  exact ⟨_, _, _, bind_eq_ok.2 ⟨_, _, liftM_eq_ok.2 ⟨hslot, rfl⟩,
    bind_eq_ok.2 ⟨_, _, liftM_eq_ok.2 ⟨htable, rfl⟩, bind_eq_ok.2 ⟨_, _, happend, rfl⟩⟩⟩⟩

/-- A program is finished if its top-level code can be read. -/
theorem buildOfItems_of_block {main : List Item} {tree : Block} {locals : Option SlotTable}
    {events middle : Array Event}
    (hblock : Build.block main none builder.code.size events = .ok (tree, locals) middle) :
    ∃ program events', builder.buildOfItems main events = .ok program events' := by
  have happend := Build.append_eq_ok.2 ⟨tree, locals, hblock, rfl⟩
  exact ⟨_, _, bind_eq_ok.2 ⟨_, _, happend, rfl⟩⟩

end Builder

namespace Script

variable {builder : Builder ν}

/-- Declarations that can be read and have new names are registered. -/
theorem declarations_of_take {limit bound : Nat} {state state' : Parser.State}
    {declared : List Declaration}
    (htake : takeDeclarations limit bound state = .ok declared state')
    (hdistinct : (builder.globals.names ++ declared.map (·.global.name)).Nodup) :
    ∃ builder', declarations limit bound builder state = .ok (declared, builder') state' := by
  induction bound generalizing builder state declared with
  | zero =>
      obtain ⟨rfl, rfl⟩ := pure_eq_ok.1 htake
      exact ⟨builder, rfl⟩
  | succ bound ih =>
      obtain ⟨first?, taken, hfirst, hrest⟩ := bind_eq_ok.1 htake
      cases first? with
      | none =>
          obtain ⟨rfl, rfl⟩ := pure_eq_ok.1 hrest
          exact ⟨builder, bind_eq_ok.2 ⟨_, _, hfirst, rfl⟩⟩
      | some first =>
          obtain ⟨others, _, hothers, hresult⟩ := bind_eq_ok.1 hrest
          obtain ⟨rfl, rfl⟩ := pure_eq_ok.1 hresult
          have hnew : first.global.name ∉ builder.globals.names := by
            intro hknown
            exact (List.disjoint_of_nodup_append hdistinct) hknown List.mem_cons_self
          obtain ⟨registered, hregister⟩ := Builder.register_of_new hnew
          have hothers' : (registered.globals.names ++ others.map (·.global.name)).Nodup := by
            rw [List.map_cons, List.append_cons] at hdistinct
            rw [Builder.register_ok hregister]
            simpa [SlotTable.names] using hdistinct
          obtain ⟨builder', hdeclared⟩ := ih hothers hothers'
          exact ⟨builder', bind_eq_ok.2 ⟨_, _, hfirst, bind_eq_ok.2
            ⟨_, _, liftM_eq_ok.2 ⟨hregister, rfl⟩, bind_eq_ok.2 ⟨_, _, hdeclared, rfl⟩⟩⟩⟩

/-- Functions compile if their bodies can be read. -/
theorem compileFunctions_of_defineAll {declared : List Declaration} {known : List Variable}
    {values : List (Value ν)} {bodies : List Compiled} {definitions : List Definition}
    {before after : Array Event} (hlayout : builder.Layout bodies)
    (hawaits : builder.Awaits known values declared)
    (hdefine : defineAll declared before = .ok definitions after) (events : Array Event) :
    ∃ builder' events', compileFunctions builder declared events = .ok builder' events' := by
  induction declared generalizing builder bodies known values definitions before after events with
  | nil => exact ⟨builder, events, rfl⟩
  | cons first rest ih =>
      obtain ⟨definition, _, hfirst, hothers⟩ := bind_eq_ok.1 hdefine
      obtain ⟨others, _, hrest, -⟩ := bind_eq_ok.1 hothers
      match first with
      | .variable name type => exact ih hlayout hawaits.skip hrest events
      | .function signature body =>
          obtain ⟨table, _, htable, hbody⟩ := bind_eq_ok.1 hfirst
          obtain ⟨⟨tree, locals⟩, _, hread, -⟩ := bind_eq_ok.1 hbody
          obtain ⟨middle, hblock⟩ := Build.block_anywhere hread builder.code.size events
          obtain ⟨func, filled, events₁, hfunction⟩ := Builder.functionOfItems_of_block
            (hawaits.functionSlot? hlayout.tidy.distinct) (liftM_eq_ok.1 htable).1 hblock
          obtain ⟨_, _, _, _, -, -, -, hfilled⟩ := hlayout.function hfunction
          obtain ⟨-, hothers⟩ := hawaits.function hlayout.tidy.distinct hfunction
          obtain ⟨builder', events', hcompile⟩ := ih hfilled hothers hrest events₁
          exact ⟨builder', events', bind_eq_ok.2 ⟨_, _, hfunction, hcompile⟩⟩

variable {natives : List (Builtin ν)} {source : String}

/-- The globals of a compiled script have different names. -/
theorem distinct_of_compile {program : Program ν} {events events' : Array Event}
    (h : compile natives source events = .ok program events') : program.globals.names.Nodup := by
  obtain ⟨builder, _, hlift, hcompile⟩ := bind_eq_ok.1 h
  have hmade := made_of_addBuiltins .empty (liftM_eq_ok.1 hlift).1
  obtain ⟨made, main, _, _, hmade, hbuild⟩ := exists_made_of_compileWith hmade hcompile
  obtain ⟨bodies, hlayout⟩ := hmade.exists_layout
  obtain ⟨_, _, _, -, rfl⟩ := Builder.buildOfItems_ok hbuild
  exact hlayout.tidy.distinct

/-- A script that can be read and declares no name twice compiles. -/
theorem compile_of_tree {tree : Tree} {events events' : Array Event}
    (htree : Script.tree source events = .ok tree events')
    (hdistinct : (tree.globals natives).names.Nodup) :
    ∃ program events'', compile natives source events = .ok program events'' := by
  obtain ⟨tokens, _, hlift, hdeclared⟩ := bind_eq_ok.1 htree
  obtain ⟨htokens, rfl⟩ := liftM_eq_ok.1 hlift
  obtain ⟨⟨declared, state⟩, _, hparse, hdefined⟩ := bind_eq_ok.1 hdeclared
  obtain ⟨htake, rfl⟩ := Build.parse_eq_ok.1 hparse
  obtain ⟨definitions, _, hdefine, hblock⟩ := bind_eq_ok.1 hdefined
  obtain ⟨⟨main, _⟩, _, hmain, hresult⟩ := bind_eq_ok.1 hblock
  obtain ⟨rfl, -⟩ := pure_eq_ok.1 hresult
  have hnames : (natives.map (·.name) ++ declared.map (·.global.name)).Nodup := by
    have hsame := congrArg (List.map (·.name)) (defineAll_global hdefine)
    rw [List.map_map, List.map_map] at hsame
    simp only [Tree.globals, SlotTable.names, List.map_append, List.map_map] at hdistinct
    rw [hsame] at hdistinct
    exact hdistinct
  obtain ⟨builder, hbuiltins⟩ : ∃ builder, Builder.ofBuiltins natives = .ok builder := by
    apply Builder.addBuiltins_of_distinct
    exact hnames.of_append_left
  have hbuilder : builder.globals.names = natives.map (·.name) := by
    rw [SlotTable.names, (Builder.addBuiltins_ok hbuiltins).1, List.nil_append, List.map_map]
    rfl
  obtain ⟨registered, hregistered⟩ := declarations_of_take htake (hbuilder ▸ hnames)
  obtain ⟨hlayout, hglobals, hmemory⟩ := layout_of_declarations hbuiltins hregistered
  obtain ⟨compiled, events₁, hcompile⟩ :=
    compileFunctions_of_defineAll hlayout ⟨hglobals, hmemory, by simp⟩ hdefine state.events
  obtain ⟨_, hcode⟩ := Build.block_anywhere hmain compiled.code.size events₁
  obtain ⟨program, events₂, hbuild⟩ := Builder.buildOfItems_of_block hcode
  rw [← List.length_map (f := (.ok : Token → Item))] at hregistered
  have hparsed := Build.parse_eq_ok.2 ⟨hregistered, rfl⟩
  refine ⟨program, events₂, bind_eq_ok.2 ⟨builder, _, liftM_eq_ok.2 ⟨hbuiltins, rfl⟩, ?_⟩⟩
  refine bind_eq_ok.2 ⟨tokens, _, liftM_eq_ok.2 ⟨htokens, rfl⟩, ?_⟩
  exact bind_eq_ok.2 ⟨_, _, hparsed, bind_eq_ok.2 ⟨compiled, events₁, hcompile, hbuild⟩⟩

/-- A script compiles exactly if it can be read and declares no name twice. -/
theorem compile_iff (events : Array Event) :
    (∃ program events', compile natives source events = .ok program events') ↔
      ∃ tree events', Script.tree source events = .ok tree events' ∧
        (tree.globals natives).names.Nodup := by
  constructor
  · rintro ⟨program, events', hcompile⟩
    obtain ⟨tree, events'', _, htree, hglobals, -⟩ := compile_ok hcompile
    exact ⟨tree, events'', htree, hglobals ▸ distinct_of_compile hcompile⟩
  · rintro ⟨tree, events', htree, hdistinct⟩
    exact compile_of_tree htree hdistinct

end Script

end StackScript
