import StackScript.Proofs.Simulation

/-!
# Scripts as trees

A script is read as a list of definitions and a block, with no code and no positions in it, and the
interpreter runs it from there. A script that compiles gives a program whose runs end as those of
its tree do.
-/

namespace StackScript

variable {ν : Type}

/-- A declaration of a script. The body of a function is a tree, and its locals are known. -/
inductive Definition where
  | variable (name : String) (type : TypeTag)
  | function (signature : Signature) (locals : SlotTable) (body : Block)

/-- The global that a declaration makes known. -/
def Declaration.global : Declaration → Variable
  | .variable name type => ⟨name, type⟩
  | .function signature _ => ⟨signature.name, .function⟩

namespace Definition

/-- The global that a definition makes known. -/
def global : Definition → Variable
  | .variable name type => ⟨name, type⟩
  | .function signature _ _ => ⟨signature.name, .function⟩

/-- What the global holds at the start. Functions are told apart by a label that they carry. -/
def value (label : Nat) : Definition → Value ν
  | .variable _ type => .initial type
  | .function signature locals _ => .function (signature.func label locals)

/-- The block of a function with the given name. -/
def body? (name : String) : Definition → Option Block
  | .variable _ _ => none
  | .function signature _ body => if signature.name = name then some body else none

theorem body?_eq_some {definition : Definition} {name : String} {body : Block} :
    definition.body? name = some body ↔
      ∃ signature locals, definition = .function signature locals body ∧ signature.name = name := by
  match definition with
  | .variable _ _ => simp [body?]
  | .function signature locals body' =>
      simp only [body?, Option.ite_none_right_eq_some, Option.some.injEq, function.injEq]
      grind

end Definition

namespace Script

/-- A script without code: what it defines, in order, and its top-level block. -/
structure Tree where
  definitions : List Definition
  main : Block

/-- Takes all declarations. -/
def takeDeclarations (limit : Nat) : (bound : Nat) → Parser (List Declaration)
  | 0 => return []
  | bound + 1 => do
      match ← Parser.declaration? limit with
      | none => return []
      | some first => return first :: (← takeDeclarations limit bound)

/-- Reads the body of a declaration as a block. -/
def define : Declaration → Build Definition
  | .variable name type => return .variable name type
  | .function signature body => do
      let table ← signature.table
      let (tree, locals) ← Build.block body (some table) 0
      return .function signature (locals.getD {}) tree

/-- Reads the bodies of declarations in order. -/
def defineAll : List Declaration → Build (List Definition)
  | [] => return []
  | first :: rest => do
      let definition ← define first
      return definition :: (← defineAll rest)

/-- Reads a script. -/
def tree (source : String) : Build Tree := do
  let tokens ← (Token.tokenize source).mapError CompileError.lex
  let items := tokens.map Except.ok
  let (declared, state) ← Build.parse items none (takeDeclarations tokens.length tokens.length)
  let definitions ← defineAll declared
  let (main, _) ← Build.block state.rest none 0
  return { definitions, main }

namespace Tree

/-- The builtins come first among the globals, then what the script defines. -/
def globals (natives : List (Builtin ν)) (tree : Tree) : SlotTable :=
  ⟨natives.map (fun native => ⟨native.name, .builtin⟩) ++ tree.definitions.map Definition.global⟩

/-- What the globals hold at the start. -/
def memory (natives : List (Builtin ν)) (labels : String → Nat) (tree : Tree) : Array (Value ν) :=
  let defined := tree.definitions.map fun definition : Definition =>
    definition.value (labels definition.global.name)
  (natives.map Value.builtin ++ defined).toArray

/-- The block of a function. -/
def bodyOf (tree : Tree) (func : Func) : Block :=
  (tree.definitions.findSome? (·.body? func.name)).getD []

/-- Runs a script with loops cut off after a number of rounds: its verdict and the store it leaves,
if it comes to an end by then. -/
def run? [Host ν] (natives : List (Builtin ν)) (labels : String → Nat) (tree : Tree)
    (output : Sink) (rounds : Nat) : Option (Verdict × Store ν) :=
  Verdict.ofResult? (Eval.run (tree.globals natives) tree.bodyOf rounds tree.main
    { memory := tree.memory natives labels, output })

end Tree

end Script

/-! ## Blocks without positions -/

/-- A block is read as the same tree wherever its code will stand. -/
theorem Build.block_anywhere {items : List Item} {locals locals' : Option SlotTable} {start : Nat}
    {events events' : Array Event} {tree : Block}
    (h : block items locals start events = .ok (tree, locals') events') (start' : Nat)
    (events₁ : Array Event) :
    ∃ events₂, block items locals start' events₁ = .ok (tree, locals') events₂ := by
  -- the tree is that of a derivation, and a derivation has no positions
  obtain ⟨derivation, hadmits, rfl, rfl⟩ := block_ok h
  exact block_of_admits hadmits start' events₁

/-! ## What compiling makes of declarations -/

section Declarations

variable {builder builder' : Builder ν}

theorem Builder.register_ok {declaration : Declaration}
    (h : builder.register declaration = .ok builder') :
    builder' = { builder with
      globals := ⟨builder.globals.entries ++ [declaration.global]⟩
      memory := builder.memory.push (.initial declaration.global.type) } := by
  match declaration with
  | .variable name type =>
      obtain ⟨⟨slot, declared⟩, hdeclared, rfl⟩ := map_eq_ok.1 h
      exact (declare_ok hdeclared).2
  | .function signature body =>
      obtain ⟨⟨slot, declared⟩, hdeclared, rfl⟩ := map_eq_ok.1 h
      exact (declare_ok hdeclared).2

/-- Every declaration makes one global known, which holds the initial value of its type for now. -/
theorem Script.declarations_ok {limit bound : Nat} {state state' : Parser.State}
    {declared : List Declaration}
    (h : declarations limit bound builder state = .ok (declared, builder') state') :
    takeDeclarations limit bound state = .ok declared state' ∧
      builder'.globals.entries = builder.globals.entries ++ declared.map Declaration.global ∧
      builder'.memory.toList = builder.memory.toList ++
        declared.map fun declaration => .initial declaration.global.type := by
  induction bound generalizing builder state declared with
  | zero =>
      obtain ⟨hresult, rfl⟩ := pure_eq_ok.1 h
      cases hresult
      simp [takeDeclarations, Pure.pure, EStateM.pure]
  | succ bound ih =>
      obtain ⟨first?, taken, hfirst, hrest⟩ := bind_eq_ok.1 h
      cases first? with
      | none =>
          obtain ⟨hresult, rfl⟩ := pure_eq_ok.1 hrest
          cases hresult
          refine ⟨bind_eq_ok.2 ⟨_, _, hfirst, rfl⟩, ?_, ?_⟩ <;> simp
      | some first =>
          obtain ⟨registered, _, hlift, hmore⟩ := bind_eq_ok.1 hrest
          obtain ⟨hregister, rfl⟩ := liftM_eq_ok.1 hlift
          obtain ⟨⟨others, after⟩, _, hothers, hresult⟩ := bind_eq_ok.1 hmore
          obtain ⟨hpair, rfl⟩ := pure_eq_ok.1 hresult
          cases hpair
          obtain ⟨htake, hglobals, hmemory⟩ := ih hothers
          refine ⟨bind_eq_ok.2 ⟨_, _, hfirst, bind_eq_ok.2 ⟨_, _, htake, rfl⟩⟩, ?_, ?_⟩
          · rw [hglobals, Builder.register_ok hregister]
            simp
          · rw [hmemory, Builder.register_ok hregister]
            simp

/-- Builtins are globals that hold themselves. -/
theorem Builder.addBuiltins_ok {natives : List (Builtin ν)}
    (h : builder.addBuiltins natives = .ok builder') :
    builder'.globals.entries =
        builder.globals.entries ++ natives.map (fun native => ⟨native.name, .builtin⟩) ∧
      builder'.memory.toList = builder.memory.toList ++ natives.map Value.builtin := by
  induction natives generalizing builder with
  | nil =>
      cases h
      simp
  | cons first rest ih =>
      unfold addBuiltins at h
      split at h
      · cases h
      next slot added hbuiltin =>
        obtain ⟨hglobals, hmemory⟩ := ih h
        obtain ⟨-, rfl⟩ := declare_ok hbuiltin
        simp [hglobals, hmemory]

/-- Where names are distinct, the entry at a slot is found there by its name. -/
theorem SlotTable.slot?_of_getElem? {table : SlotTable} {slot : Nat} {entry : Variable}
    (hdistinct : (table.entries.map (·.name)).Nodup) (h : table.entries[slot]? = some entry) :
    table.slot? entry.name = some slot := by
  cases hslot : table.slot? entry.name with
  | none =>
      have hname : entry.name ∈ table.entries.map (·.name) :=
        List.mem_map_of_mem (List.mem_of_getElem? h)
      exact absurd hname (slot?_eq_none.1 hslot)
  | some other =>
      have hother := getElem?_of_slot? hslot
      have hentry : (table.entries[slot]?).map (·.name) = some entry.name := by
        rw [h, Option.map_some]
      rw [← List.getElem?_map] at hother hentry
      obtain ⟨hlt, -⟩ := List.getElem?_eq_some_iff.1 hother
      rw [(List.getElem?_inj hlt hdistinct).1 (hother.trans hentry.symm)]

/-- A function whose name is known is compiled into the slot of that name. -/
theorem Builder.functionOfItems_declared {signature : Signature} {body : List Item} {func : Func}
    {events events' : Array Event} {slot : Nat}
    (h : builder.functionOfItems signature body events = .ok (func, builder') events')
    (hslot : builder.globals.slot? signature.name = some slot) :
    builder'.globals = builder.globals ∧
      builder'.memory = builder.memory.setIfInBounds slot (.function func) := by
  obtain ⟨slot?, table, tree, locals, _, hfree, -, -, -, hstore⟩ := functionOfItems_ok h
  have hfound : slot? = some slot := by
    cases slot? with
    | some other => rw [← hslot, (Tidy.functionSlot?_ok hfree).1]
    | none =>
        have hentry := SlotTable.getElem?_of_slot? hslot
        obtain ⟨found, hfound, -⟩ := Option.map_eq_some_iff.1 hentry
        simp only [functionSlot?, SlotTable.find?, hslot, hfound, Option.map_some] at hfree
        split at hfree <;> cases hfree
  subst hfound
  cases hstore
  exact ⟨rfl, rfl⟩

variable {bodies : List Compiled}

/-- A definition with the position where the code of its function starts. -/
structure Placed where
  definition : Definition
  entry : Nat

namespace Placed

/-- What the global of the definition holds. -/
def value (placed : Placed) : Value ν :=
  placed.definition.value placed.entry

/-- The function of the definition with its body. -/
def compiled? (placed : Placed) : Option Compiled :=
  match placed.definition with
  | .variable _ _ => none
  | .function signature locals body => some ⟨signature.func placed.entry locals, body⟩

theorem compiled?_eq_some {placed : Placed} {compiled : Compiled} :
    placed.compiled? = some compiled ↔
      ∃ signature locals, placed.definition = .function signature locals compiled.body ∧
        compiled.func = signature.func placed.entry locals := by
  obtain ⟨definition, entry⟩ := placed
  obtain ⟨func, body⟩ := compiled
  match definition with
  | .variable _ _ => simp [compiled?]
  | .function signature locals body' =>
      simp only [compiled?, Option.some.injEq, Compiled.mk.injEq, Definition.function.injEq]
      grind

end Placed

theorem Script.define_global {declaration : Declaration} {definition : Definition}
    {events events' : Array Event} (h : define declaration events = .ok definition events') :
    definition.global = declaration.global := by
  match declaration with
  | .variable name type =>
      cases (pure_eq_ok.1 h).1
      rfl
  | .function signature body =>
      obtain ⟨_, _, -, hblock⟩ := bind_eq_ok.1 h
      obtain ⟨_, _, -, hresult⟩ := bind_eq_ok.1 hblock
      cases (pure_eq_ok.1 hresult).1
      rfl

/-- Definitions make known what their declarations do. -/
theorem Script.defineAll_global {declared : List Declaration} {definitions : List Definition}
    {events events' : Array Event} (h : defineAll declared events = .ok definitions events') :
    definitions.map Definition.global = declared.map Declaration.global := by
  induction declared generalizing definitions events events' with
  | nil =>
      cases (pure_eq_ok.1 h).1
      rfl
  | cons first rest ih =>
      obtain ⟨definition, _, hfirst, hothers⟩ := bind_eq_ok.1 h
      obtain ⟨others, _, hrest, hresult⟩ := bind_eq_ok.1 hothers
      cases (pure_eq_ok.1 hresult).1
      rw [List.map_cons, List.map_cons, define_global hfirst, ih hrest]

/-- The known globals have their values, and those that are still to be compiled hold the initial
values of their types. -/
structure Builder.Awaits (builder : Builder ν) (known : List Variable) (values : List (Value ν))
    (declared : List Declaration) : Prop where
  globals : builder.globals.entries = known ++ declared.map Declaration.global
  memory : builder.memory.toList =
    values ++ declared.map fun declaration => .initial declaration.global.type
  length : values.length = known.length

namespace Builder.Awaits

variable {known : List Variable} {values : List (Value ν)} {rest : List Declaration}

/-- A variable has its value from the start. -/
theorem skip {name : String} {type : TypeTag}
    (h : builder.Awaits known values (.variable name type :: rest)) :
    builder.Awaits (known ++ [⟨name, type⟩]) (values ++ [.initial type]) rest := by
  refine ⟨?_, ?_, by simp [h.length]⟩
  · simp [h.globals, Declaration.global]
  · simp [h.memory, Declaration.global]

variable {signature : Signature} {body : List Item}
  (h : builder.Awaits known values (.function signature body :: rest))
include h

theorem entry : builder.globals.entries[known.length]? = some ⟨signature.name, .function⟩ := by
  simp [h.globals, Declaration.global]

/-- Names are distinct, so the next function goes into the first cell that is not final yet. -/
theorem slot? (hdistinct : (builder.globals.entries.map (·.name)).Nodup) :
    builder.globals.slot? signature.name = some known.length :=
  SlotTable.slot?_of_getElem? hdistinct h.entry

theorem function (hdistinct : (builder.globals.entries.map (·.name)).Nodup) {func : Func}
    {events events' : Array Event}
    (hfunction : builder.functionOfItems signature body events = .ok (func, builder') events') :
    builder'.globals = builder.globals ∧
      builder'.Awaits (known ++ [⟨signature.name, .function⟩]) (values ++ [.function func])
        rest := by
  obtain ⟨hkept, hset⟩ := functionOfItems_declared hfunction (h.slot? hdistinct)
  refine ⟨hkept, ?_, ?_, by simp [h.length]⟩
  · simp [hkept, h.globals, Declaration.global]
  · simp [hset, h.memory, ← h.length]

end Builder.Awaits

/-- Compiling functions reads the bodies that the tree has, lays them out in order, and puts each
function into the cell of its own declaration. The induction is on the declarations that are left:
those before them have their values already. -/
theorem Script.compileFunctions_ok {declared : List Declaration} {known : List Variable}
    {values : List (Value ν)} {events events' : Array Event} (hlayout : builder.Layout bodies)
    (hawaits : builder.Awaits known values declared)
    (h : compileFunctions builder declared events = .ok builder' events') (events₁ : Array Event) :
    ∃ (placed : List Placed) (events₂ : Array Event),
      defineAll declared events₁ = .ok (placed.map (·.definition)) events₂ ∧
      builder'.globals = builder.globals ∧
      builder'.memory.toList = values ++ placed.map Placed.value ∧
      builder'.Layout (bodies ++ placed.filterMap Placed.compiled?) := by
  induction declared generalizing builder bodies known values events events₁ with
  | nil =>
      cases (pure_eq_ok.1 h).1
      exact ⟨[], events₁, rfl, rfl, by simpa using hawaits.memory, by simpa using hlayout⟩
  | cons first rest ih =>
      match first with
      | .variable name type =>
          obtain ⟨placed, events₂, hdefine, hsame, hvalues, hbodies⟩ :=
            ih hlayout hawaits.skip h events₁
          refine ⟨⟨.variable name type, 0⟩ :: placed, events₂, ?_, hsame, ?_, ?_⟩
          · exact bind_eq_ok.2 ⟨_, _, rfl, bind_eq_ok.2 ⟨_, _, hdefine, rfl⟩⟩
          · simp [hvalues, Placed.value, Definition.value]
          · rwa [List.filterMap_cons_none rfl]
      | .function signature body =>
          obtain ⟨⟨func, filled⟩, _, hfunction, hrest⟩ := bind_eq_ok.1 h
          obtain ⟨table, tree, locals, _, htable, hblock, hfunc, hfilled⟩ :=
            hlayout.function hfunction
          obtain ⟨hkept, hothers⟩ := hawaits.function hlayout.tidy.distinct hfunction
          obtain ⟨events₂, hread⟩ := Build.block_anywhere hblock 0 events₁
          obtain ⟨placed, events₃, hdefine, hsame, hvalues, hbodies⟩ :=
            ih hfilled hothers hrest events₂
          refine ⟨⟨.function signature (locals.getD {}) tree, builder.code.size⟩ :: placed, events₃,
            ?_, hsame.trans hkept, ?_, ?_⟩
          · have hfirst : define (.function signature body) events₁ =
                .ok (.function signature (locals.getD {}) tree) events₂ :=
              bind_eq_ok.2 ⟨_, _, liftM_eq_ok.2 ⟨htable, rfl⟩, bind_eq_ok.2 ⟨_, _, hread, rfl⟩⟩
            exact bind_eq_ok.2 ⟨_, _, hfirst, bind_eq_ok.2 ⟨_, _, hdefine, rfl⟩⟩
          · simp [hvalues, Placed.value, Definition.value, hfunc]
          · rw [hfunc] at hbodies
            rw [List.filterMap_cons_some (show Placed.compiled? _ = some _ from rfl),
              List.append_cons]
            exact hbodies

end Declarations

/-! ## Programs of trees -/

/-- Where the code of the function with a name starts. -/
def Program.label (program : Program ν) (name : String) : Nat :=
  ((program.functions.find? (·.name = name)).map (·.entry)).getD 0

section Programs

variable {program : Program ν} {placed : List Placed} {main : Block}

theorem Program.Layout.label_eq {bodies : List Compiled} {compiled : Compiled}
    (h : program.Layout bodies main) (hmem : compiled ∈ bodies) :
    program.label compiled.func.name = compiled.func.entry := by
  have hfunc := h.mem_functions.2 ⟨compiled, hmem, rfl⟩
  unfold Program.label
  cases hfind : program.functions.find? (·.name = compiled.func.name) with
  | none => simpa using List.find?_eq_none.1 hfind _ hfunc
  | some found =>
      obtain ⟨other, hother, rfl⟩ := h.mem_functions.1 (List.mem_of_find?_eq_some hfind)
      have hname : other.func.name = compiled.func.name := by simpa using List.find?_some hfind
      rw [h.named other hother compiled hmem hname]
      rfl

/-- The label of a function is where its definition was placed. -/
theorem Placed.value_label (h : program.Layout (placed.filterMap Placed.compiled?) main)
    {one : Placed} (hmem : one ∈ placed) :
    (one.value : Value ν) = one.definition.value (program.label one.definition.global.name) := by
  obtain ⟨definition, entry⟩ := one
  match definition with
  | .variable name type => rfl
  | .function signature locals body =>
      have hlabel : program.label signature.name = entry :=
        h.label_eq (List.mem_filterMap.2 ⟨_, hmem, rfl⟩)
      simp only [value, Definition.value, Definition.global, hlabel]

/-- The block that a tree has for a function is the one that was compiled. -/
theorem Placed.bodyOf_eq (h : program.Layout (placed.filterMap Placed.compiled?) main)
    {compiled : Compiled} (hmem : compiled ∈ placed.filterMap Placed.compiled?) :
    Script.Tree.bodyOf ⟨placed.map (·.definition), main⟩ compiled.func = compiled.body := by
  obtain ⟨one, hone, hcompiled⟩ := List.mem_filterMap.1 hmem
  obtain ⟨signature, locals, hdefinition, hfunc⟩ := compiled?_eq_some.1 hcompiled
  have hbody : one.definition.body? compiled.func.name = some compiled.body :=
    Definition.body?_eq_some.2 ⟨signature, locals, hdefinition, by rw [hfunc, Signature.func]⟩
  unfold Script.Tree.bodyOf
  cases hfind : (placed.map (·.definition)).findSome? (·.body? compiled.func.name) with
  | none =>
      have hnone := List.findSome?_eq_none_iff.1 hfind _ (List.mem_map_of_mem hone)
      cases hbody.symm.trans hnone
  | some body =>
      -- the definition that was found has the same name, so it is the one that was compiled
      obtain ⟨_, hmem', hbody'⟩ := List.exists_of_findSome?_eq_some hfind
      obtain ⟨other, hother, rfl⟩ := List.mem_map.1 hmem'
      obtain ⟨signature', locals', hdefinition', hname⟩ := Definition.body?_eq_some.1 hbody'
      let compiled' : Compiled := ⟨signature'.func other.entry locals', body⟩
      have hcompiled' : compiled' ∈ placed.filterMap Placed.compiled? :=
        List.mem_filterMap.2 ⟨other, hother, compiled?_eq_some.2 ⟨_, _, hdefinition', rfl⟩⟩
      have hsame : compiled' = compiled := h.named _ hcompiled' _ hmem hname
      exact congrArg Compiled.body hsame

end Programs

namespace Script

variable {natives : List (Builtin ν)} {source : String} {events events' : Array Event}
  {program : Program ν}

/-- Before functions are compiled, memory holds builtins and initial values, and there is no
code. -/
theorem layout_of_declarations {builder builder' : Builder ν} {limit bound : Nat}
    {state state' : Parser.State} {declared : List Declaration}
    (hbuiltins : Builder.ofBuiltins natives = .ok builder)
    (hdeclared : declarations limit bound builder state = .ok (declared, builder') state') :
    builder'.Layout [] ∧
      builder'.globals.entries =
        natives.map (fun native => ⟨native.name, .builtin⟩) ++ declared.map Declaration.global ∧
      builder'.memory.toList = natives.map Value.builtin ++
        declared.map fun declaration => .initial declaration.global.type := by
  obtain ⟨hglobals, hmemory⟩ := Builder.addBuiltins_ok hbuiltins
  obtain ⟨-, hglobals', hmemory'⟩ := declarations_ok hdeclared
  have hmade := made_of_declarations (made_of_addBuiltins .empty hbuiltins) hdeclared
  obtain ⟨bodies, hlayout⟩ := hmade.exists_layout
  have hvalues : builder'.memory.toList = natives.map Value.builtin ++
      declared.map fun declaration => .initial declaration.global.type := by
    rw [hmemory', hmemory]
    rfl
  -- a body would come with a function in memory
  have hnone : bodies = [] := by
    refine List.eq_nil_iff_forall_not_mem.2 fun compiled hmem => ?_
    have hfunc := (hlayout.functions compiled.func).2 ⟨compiled, hmem, rfl⟩
    rw [← Array.mem_toList_iff, hvalues] at hfunc
    rcases List.mem_append.1 hfunc with hbuiltin | hinitial
    · obtain ⟨_, -, heq⟩ := List.mem_map.1 hbuiltin
      cases heq
    · obtain ⟨_, -, heq⟩ := List.mem_map.1 hinitial
      exact Value.initial_ne_function _ _ heq
  subst hnone
  refine ⟨hlayout, ?_, hvalues⟩
  rw [hglobals', hglobals]
  rfl

/-- A script that compiles is a tree, and its program has the globals, the memory and the code of
that tree, with every function placed somewhere. -/
theorem compile_placed (h : compile natives source events = .ok program events') :
    ∃ (placed : List Placed) (main : Block) (events'' : Array Event),
      Script.tree source events = .ok ⟨placed.map (·.definition), main⟩ events'' ∧
      program.globals = Tree.globals natives ⟨placed.map (·.definition), main⟩ ∧
      program.memory = Tree.memory natives program.label ⟨placed.map (·.definition), main⟩ ∧
      program.Layout (placed.filterMap Placed.compiled?) main := by
  obtain ⟨builder, _, hlift, hcompile⟩ := bind_eq_ok.1 h
  obtain ⟨hbuiltins, rfl⟩ := liftM_eq_ok.1 hlift
  obtain ⟨tokens, declared, registered, state, compiled, events'', htokens, hdeclared, hfunctions,
    hbuild⟩ := compileWith_ok hcompile
  obtain ⟨hlayout, hglobals, hmemory⟩ := layout_of_declarations hbuiltins hdeclared
  obtain ⟨placed, events₂, hdefine, hsame, hvalues, hbodies⟩ :=
    compileFunctions_ok hlayout ⟨hglobals, hmemory, by simp⟩ hfunctions state.events
  rw [List.nil_append] at hbodies
  obtain ⟨main, locals, _, hblock, hprogram⟩ := hbodies.build hbuild
  obtain ⟨events₃, hmain⟩ := Build.block_anywhere hblock 0 events₂
  obtain ⟨_, _, _, -, hparts⟩ := Builder.buildOfItems_ok hbuild
  refine ⟨placed, main, events₃, ?_, ?_, ?_, hprogram⟩
  · have hparse := Build.parse_eq_ok.2 ⟨(declarations_ok hdeclared).1, rfl⟩
    refine bind_eq_ok.2 ⟨tokens, _, liftM_eq_ok.2 ⟨by rw [htokens]; rfl, rfl⟩, ?_⟩
    refine bind_eq_ok.2 ⟨_, _, hparse, bind_eq_ok.2 ⟨_, _, hdefine, ?_⟩⟩
    exact bind_eq_ok.2 ⟨_, _, hmain, rfl⟩
  · have hentries : program.globals.entries = registered.globals.entries := by rw [hparts, hsame]
    rw [hglobals, ← defineAll_global hdefine] at hentries
    exact congrArg SlotTable.mk hentries
  · have hcells : program.memory.toList = natives.map Value.builtin ++ placed.map Placed.value := by
      rw [hparts, hvalues]
    rw [List.map_congr_left fun one hmem => Placed.value_label hprogram hmem] at hcells
    refine Array.toList_inj.1 (hcells.trans ?_)
    rw [Tree.memory, List.map_map]
    rfl

theorem compile_ok (h : compile natives source events = .ok program events') :
    ∃ (tree : Tree) (events'' : Array Event) (bodies : List Compiled),
      Script.tree source events = .ok tree events'' ∧
      program.globals = tree.globals natives ∧
      program.memory = tree.memory natives program.label ∧
      program.Layout bodies tree.main ∧
      ∀ compiled ∈ bodies, tree.bodyOf compiled.func = compiled.body := by
  obtain ⟨placed, main, events'', htree, hglobals, hmemory, hlayout⟩ := compile_placed h
  refine ⟨_, events'', _, htree, hglobals, hmemory, hlayout, ?_⟩
  intro compiled hmem
  exact Placed.bodyOf_eq hlayout hmem

/-- A compiled script ends exactly as its tree does: it is completed, halted by the same builtin or
failed with the same fault, and it leaves the same stack, memory and output. -/
theorem compiled_ends_iff_tree_ends [Host ν]
    (h : compile natives source events = .ok program events') :
    ∃ (tree : Tree) (events'' : Array Event), Script.tree source events = .ok tree events'' ∧
      ∀ output verdict store,
        (Machine.start program output).Ends program verdict store ↔
          ∃ rounds, tree.run? natives program.label output rounds = some (verdict, store) := by
  obtain ⟨tree, events'', bodies, htree, hglobals, hmemory, hlayout, hbodyOf⟩ := compile_ok h
  refine ⟨tree, events'', htree, fun output verdict store => ?_⟩
  let fresh : Store ν := { memory := program.memory, output }
  have hknown : (fresh.machine program.entry []).Known program := by
    intro func hfunc
    rcases hfunc with hstack | hcell
    · simp [Store.machine, fresh] at hstack
    · exact hlayout.mem_functions.2 ((hlayout.functions func).1 hcell)
  have hcarries : ∀ rounds, Carries program rounds (fresh.machine program.entry []) _ _ :=
    fun _ => Eval.run_carries hlayout hbodyOf hknown
  unfold Tree.run?
  rw [← hglobals, ← hmemory]
  exact Machine.ends_iff hcarries

theorem tree_ends_after_loop :
    ∃ (source : String) (program : Program Native) (tree : Tree) (events events' : Array Event)
      (rounds : Nat) (store : Store Native),
      compile Native.builtins source #[] = .ok program events ∧
      Script.tree source #[] = .ok tree events' ∧
      tree.run? Native.builtins program.label {} rounds = some (.halted "done", store) ∧
      store.output.bytes = "4\ndone the program\n".toUTF8 := by
  let func : Func := ⟨"f", [.int], none, 0, ⟨[⟨"n", .int⟩]⟩⟩
  let program : Program Native :=
    { code := #[.loadGlobal "x", .loadLocal 0 .int, .binary .add, .assignGlobal "x", .ret, .ret,
        .loadGlobal "x", .push (.int 3), .binary .lt, .jumpIfZero 15, .loadGlobal "f",
        .push (.int 2), .invoke 1, .push (.int 0), .jumpIfZero 6, .loadGlobal "print_one",
        .loadGlobal "x", .invoke 1, .loadGlobal "done", .invoke 0]
      globals := ⟨[⟨"print_one", .builtin⟩, ⟨"print_all", .builtin⟩, ⟨"print_sum", .builtin⟩,
        ⟨"done", .builtin⟩, ⟨"x", .int⟩, ⟨"f", .function⟩]⟩
      memory := #[.builtin Native.printOne.builtin, .builtin Native.printAll.builtin,
        .builtin Native.printSum.builtin, .builtin Native.done.builtin, .int 0, .function func]
      entry := 6 }
  let halted : Machine Native :=
    { pc := 19, memory := program.memory.setIfInBounds 4 (.int 4),
      output := { bytes := "4\ndone the program\n".toUTF8 } }
  have hcompile : compile Native.builtins
      ("var x int func f(n int) \x7b x = x + n return \x7d " ++
        "while x < 3 \x7b f(2) \x7d print_one(x) done()") #[] =
      .ok program #[.functionCompiled "f" 0 6 1, .jumpSettled 9 15, .mainCompiled 6 20] := by cbv
  have hrun : (Machine.start program {}).run program 60 = .stopped (.halted "done") halted := by cbv
  obtain ⟨tree, events', htree, hends⟩ := compiled_ends_iff_tree_ends hcompile
  obtain ⟨rounds, hrounds⟩ := (hends {} (.halted "done") halted.store).1 ⟨60, _, _, hrun, rfl, rfl⟩
  exact ⟨_, program, tree, _, events', rounds, _, hcompile, htree, hrounds, rfl⟩

end Script

end StackScript
