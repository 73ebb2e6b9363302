import Mathlib.Data.List.Nodup
import Mathlib.Data.List.Perm.Basic
import StackScript.Proofs.Compilation
import StackScript.Proofs.Declarations
import StackScript.Proofs.Placement

/-!
# The order of declarations

Scripts with the same declarations in different orders, and the same top-level code, are trees with
the same definitions in different orders. Functions and globals are found by name, and names are
distinct, so it makes no difference to a run in which slots and at which positions they are, unless
a native looks at the position of a function that it is given.
-/

namespace StackScript

open Grammar

variable {ν : Type}

/-! ## Globals at the start -/

/-- Where names are distinct, a global has the value that stands beside its name. -/
theorem Store.global?_eq_some_iff {globals : SlotTable} {store : Store ν} {name : String}
    {value : Value ν} (hdistinct : globals.names.Nodup) :
    store.global? globals name = some value ↔
      ∃ entry, (entry, value) ∈ globals.entries.zip store.memory.toList ∧ entry.name = name := by
  simp only [List.mem_iff_getElem?, List.getElem?_zip_eq_some, Array.getElem?_toList]
  constructor
  · intro h
    obtain ⟨slot, hslot, hvalue⟩ := Option.bind_eq_some_iff.1 h
    obtain ⟨entry, hentry, hname⟩ := Option.map_eq_some_iff.1 (SlotTable.getElem?_of_slot? hslot)
    exact ⟨entry, ⟨slot, hentry, hvalue⟩, hname⟩
  · rintro ⟨entry, ⟨slot, hentry, hvalue⟩, rfl⟩
    rw [Store.global?, SlotTable.slot?_of_getElem? hdistinct hentry]
    exact hvalue

@[simp] theorem Definition.unplaced_value (definition : Definition) (label : Nat) :
    (definition.value label : Value ν).unplaced = definition.value 0 := by
  match definition with
  | .variable _ type => cases type <;> rfl
  | .function _ _ _ => rfl

namespace Script.Tree

variable {natives : List (Builtin ν)} {tree tree' : Tree}

/-- The trees have the same definitions, in any order, and the same top-level block. -/
structure Reorders (tree tree' : Tree) : Prop where
  definitions : tree.definitions.Perm tree'.definitions
  main : tree.main = tree'.main

theorem Reorders.names (h : tree.Reorders tree') :
    (tree.globals natives).names.Perm (tree'.globals natives).names := by
  simp only [globals, SlotTable.names, List.map_append]
  exact ((h.definitions.map _).map _).append_left _

/-- The globals of a tree and what they hold at the start. -/
theorem zip_globals_memory (labels : String → Nat) :
    (tree.globals natives).entries.zip (tree.memory natives labels).toList =
      natives.map (fun native => (⟨native.name, .builtin⟩, .builtin native)) ++
        tree.definitions.map fun definition =>
          (definition.global, definition.value (labels definition.global.name)) := by
  simp only [globals, memory]
  rw [List.zip_append (by simp), List.zip_map', List.zip_map']

/-- At the start, the name of a builtin or of a definition stands for what it names. -/
theorem global?_start_eq_some_iff {labels : String → Nat} {output : Sink} {name : String}
    {value : Value ν} (hdistinct : (tree.globals natives).names.Nodup) :
    (Store.global? (tree.globals natives) { memory := tree.memory natives labels, output }
        name).map Value.unplaced = some value ↔
      (∃ native ∈ natives, native.name = name ∧ .builtin native = value) ∨
        ∃ definition ∈ tree.definitions, definition.global.name = name ∧
          definition.value 0 = value := by
  simp only [Option.map_eq_some_iff, Store.global?_eq_some_iff hdistinct, zip_globals_memory,
    List.mem_append, List.mem_map]
  constructor
  · rintro ⟨_, ⟨_, ⟨native, hmem, hpair⟩ | ⟨definition, hmem, hpair⟩, rfl⟩, rfl⟩ <;> cases hpair
    · exact .inl ⟨native, hmem, rfl, rfl⟩
    · exact .inr ⟨definition, hmem, rfl, (definition.unplaced_value _).symm⟩
  · rintro (⟨native, hmem, rfl, rfl⟩ | ⟨definition, hmem, rfl, rfl⟩)
    · exact ⟨_, ⟨_, .inl ⟨native, hmem, rfl⟩, rfl⟩, rfl⟩
    · exact ⟨_, ⟨_, .inr ⟨definition, hmem, rfl⟩, rfl⟩, definition.unplaced_value _⟩

/-- At the start, every global has the same value whatever the order of definitions. -/
theorem Reorders.alike_start (h : tree.Reorders tree')
    (hdistinct : (tree.globals natives).names.Nodup) (labels labels' : String → Nat)
    (output : Sink) :
    Store.Alike (tree.globals natives) (tree'.globals natives)
      { memory := tree.memory natives labels, output }
      { memory := tree'.memory natives labels', output } := by
  refine ⟨rfl, fun name => ?_, rfl⟩
  ext value
  rw [global?_start_eq_some_iff hdistinct,
    global?_start_eq_some_iff ((h.names.nodup_iff).1 hdistinct)]
  simp only [h.definitions.mem_iff]

/-- The block of a function is the one that a definition of that name has. -/
theorem findSome?_body?_eq_some_iff (hdistinct : (tree.globals natives).names.Nodup)
    {name : String} {body : Block} :
    tree.definitions.findSome? (·.body? name) = some body ↔
      ∃ definition ∈ tree.definitions, definition.body? name = some body := by
  constructor
  · exact List.exists_of_findSome?_eq_some
  · rintro ⟨definition, hmem, hbody⟩
    cases hfind : tree.definitions.findSome? (·.body? name) with
    | none =>
        have hnone := List.findSome?_eq_none_iff.1 hfind definition hmem
        cases hbody.symm.trans hnone
    | some found =>
        -- two definitions of one name would be two globals of one name
        obtain ⟨other, hother, hfound⟩ := List.exists_of_findSome?_eq_some hfind
        have hnames : (tree.definitions.map (·.global.name)).Nodup := by
          simp only [globals, SlotTable.names, List.map_append, List.map_map] at hdistinct
          exact hdistinct.of_append_right
        have hname : other.global.name = definition.global.name := by
          obtain ⟨_, _, rfl, hname⟩ := Definition.body?_eq_some.1 hbody
          obtain ⟨_, _, rfl, hname'⟩ := Definition.body?_eq_some.1 hfound
          exact hname'.trans hname.symm
        rw [List.inj_on_of_nodup_map hnames hother hmem hname] at hfound
        rw [← hfound, hbody]

/-- Functions that differ in their positions only have the same block in both trees. -/
theorem Reorders.bodyOf (h : tree.Reorders tree')
    (hdistinct : (tree.globals natives).names.Nodup) {func func' : Func}
    (hfunc : func.unplaced = func'.unplaced) : tree.bodyOf func = tree'.bodyOf func' := by
  have hsame : tree.definitions.findSome? (·.body? func.name) =
      tree'.definitions.findSome? (·.body? func.name) := by
    ext body
    rw [findSome?_body?_eq_some_iff hdistinct,
      findSome?_body?_eq_some_iff ((h.names.nodup_iff).1 hdistinct)]
    simp only [h.definitions.mem_iff]
  rw [Tree.bodyOf, Tree.bodyOf, hsame, (Func.unplaced_eq_iff.1 hfunc).1]

end Script.Tree

/-! ## Scripts -/

variable {natives : List (Builtin ν)} {source source' : String} {declared declared' : List Declared}
  {main : List (Option Terminal)}

namespace Script

/-- Declarations in another order are read as definitions in another order. -/
theorem Written.exists_reorders (h : Written source declared main)
    (h' : Written source' declared' main) (hperm : declared.Perm declared') {tree : Tree}
    {events events' : Array Event} (htree : Script.tree source events = .ok tree events')
    (events₁ : Array Event) :
    ∃ tree' events₂, Script.tree source' events₁ = .ok tree' events₂ ∧ tree.Reorders tree' := by
  obtain ⟨hdefined, hmain⟩ := (h.tree_iff events).1 ⟨events', htree⟩
  obtain ⟨definitions, hdefined', hdefinitions⟩ := List.perm_comp_forall₂ hperm.symm hdefined
  have hread : ∃ events₂, Script.tree source' events₁ = .ok ⟨definitions, tree.main⟩ events₂ :=
    (h'.tree_iff events₁).2 ⟨hdefined', hmain⟩
  obtain ⟨events₂, htree'⟩ := hread
  exact ⟨_, events₂, htree', hdefinitions.symm, rfl⟩

/-- A script compiles if one with the same declarations in another order does. -/
theorem Written.compiles_of_perm (h : Written source declared main)
    (h' : Written source' declared' main) (hperm : declared.Perm declared') {events : Array Event}
    (hcompile : ∃ program after, compile natives source events = .ok program after)
    (events' : Array Event) :
    ∃ program after, compile natives source' events' = .ok program after := by
  obtain ⟨tree, _, htree, hdistinct⟩ := (compile_iff events).1 hcompile
  obtain ⟨tree', after, htree', hreorders⟩ := h.exists_reorders h' hperm htree events'
  exact (compile_iff events').2 ⟨tree', after, htree', hreorders.names.nodup_iff.1 hdistinct⟩

end Script

/-! ## Runs -/

/-- Evaluations that ended in the same way have the same verdict. -/
theorem Agrees.exists_verdict {globals globals' : SlotTable}
    {result result' : EStateM.Result Break (Store ν) Unit} {verdict : Verdict} {store : Store ν}
    (h : Agrees globals globals' (· = ·) result result')
    (hverdict : Verdict.ofResult? result = some (verdict, store)) :
    ∃ store', Verdict.ofResult? result' = some (verdict, store') ∧
      store.Alike globals globals' store' := by
  cases h with
  | ok _ alike =>
      cases hverdict
      exact ⟨_, rfl, alike⟩
  | @error reason _ _ alike =>
      cases reason with
      | halted name | failed fault =>
          cases hverdict
          exact ⟨_, rfl, alike⟩
      | exhausted => cases hverdict

variable [Host ν]

/-- Whenever the one program comes to an end, so does the other, with the same verdict, and the
stores are alike. -/
def Program.EndsLike (program program' : Program ν) : Prop :=
  ∀ (output : Sink) (verdict : Verdict) (store : Store ν),
    (Machine.start program output).Ends program verdict store →
      ∃ store', (Machine.start program' output).Ends program' verdict store' ∧
        store.Alike program.globals program'.globals store'

namespace Script

/-- A script ends as one with the same declarations in another order does. -/
theorem Written.endsLike_of_perm (hhost : Host.IgnoresPositions ν)
    (h : Written source declared main) (h' : Written source' declared' main)
    (hperm : declared.Perm declared') {program program' : Program ν}
    {events events' after after' : Array Event}
    (hcompile : compile natives source events = .ok program after)
    (hcompile' : compile natives source' events' = .ok program' after') :
    program.EndsLike program' := by
  obtain ⟨tree, _, _, htree, hglobals, hmemory, hlayout, hbodyOf⟩ := compile_ok hcompile
  obtain ⟨tree', _, _, htree', hglobals', hmemory', hlayout', hbodyOf'⟩ := compile_ok hcompile'
  have hreorders : tree.Reorders tree' := by
    obtain ⟨_, _, hread, hreorders⟩ := h.exists_reorders h' hperm htree events'
    cases htree'.symm.trans hread
    exact hreorders
  have hdistinct : (tree.globals natives).names.Nodup := hglobals ▸ distinct_of_compile hcompile
  intro output verdict store hends
  obtain ⟨rounds, hrun⟩ := (hlayout.ends_iff hbodyOf).1 hends
  have hstart := hreorders.alike_start hdistinct program.label program'.label output
  rw [← hglobals, ← hglobals', ← hmemory, ← hmemory'] at hstart
  have hagrees := Eval.run_parallel hhost (fun _ _ => hreorders.bodyOf hdistinct) rounds tree.main
    _ _ hstart
  obtain ⟨store', hrun', halike⟩ := hagrees.exists_verdict hrun
  rw [hreorders.main] at hrun'
  exact ⟨store', (hlayout'.ends_iff hbodyOf').2 ⟨rounds, hrun'⟩, halike⟩

/-- The order of declarations does not matter. Of two scripts with the same declarations in
different orders and the same top-level code, one compiles exactly if the other does. If no native
looks at positions, their programs come to an end with the same verdict and the same output, and
every global has the same value, but for the positions of functions. -/
theorem declaration_order (h : Written source declared main) (h' : Written source' declared' main)
    (hperm : declared.Perm declared') (events events' : Array Event) :
    ((∃ program after, compile natives source events = .ok program after) ↔
      ∃ program after, compile natives source' events' = .ok program after) ∧
    (Host.IgnoresPositions ν → ∀ program after program' after',
      compile natives source events = .ok program after →
      compile natives source' events' = .ok program' after' →
        program.EndsLike program' ∧ program'.EndsLike program) := by
  refine ⟨⟨fun hcompile => ?_, fun hcompile => ?_⟩, ?_⟩
  · exact h.compiles_of_perm h' hperm hcompile events'
  · exact h'.compiles_of_perm h hperm.symm hcompile events
  · intro hhost program after program' after' hcompile hcompile'
    exact ⟨h.endsLike_of_perm hhost h' hperm hcompile hcompile',
      h'.endsLike_of_perm hhost h hperm.symm hcompile' hcompile⟩

theorem declaration_order_reversed :
    ∃ (source source' : String) (declared : List Declared) (main : List (Option Terminal))
      (program program' : Program Native) (after after' : Array Event)
      (store store' : Store Native),
      Written source declared main ∧ Written source' declared.reverse main ∧
      compile [Native.printOne.builtin] source #[] = .ok program after ∧
      compile [Native.printOne.builtin] source' #[] = .ok program' after' ∧
      program.globals.slot? "x" ≠ program'.globals.slot? "x" ∧
      program.label "f" ≠ program'.label "f" ∧
      (Machine.start program {}).Ends program .completed store ∧
      (Machine.start program' {}).Ends program' .completed store' ∧
      store.Alike program.globals program'.globals store' := by
  let declared : List Declared :=
    [.variable "x" .int rfl,
      .function "f" [⟨"n", .int⟩] (by simp [TypeTag.isDeclarable]) none (by simp)
        [.identifier "x", .assign, .identifier "n"] rfl,
      .function "g" [] (by simp) none (by simp)
        [.identifier "print_one", .mark "(", .identifier "f", .mark ")"] rfl]
  let main : List (Option Terminal) :=
    [.identifier "f", .mark "(", .number "2", .mark ")", .identifier "g", .mark "(", .mark ")",
      .endOfInput].map some
  let func : Func := ⟨"f", [.int], none, 0, ⟨[⟨"n", .int⟩]⟩⟩
  let program : Program Native :=
    { code := #[.loadLocal 0 .int, .assignGlobal "x", .ret, .loadGlobal "print_one",
        .loadGlobal "f", .invoke 1, .ret, .loadGlobal "f", .push (.int 2), .invoke 1,
        .loadGlobal "g", .invoke 0]
      globals := ⟨[⟨"print_one", .builtin⟩, ⟨"x", .int⟩, ⟨"f", .function⟩, ⟨"g", .function⟩]⟩
      memory := #[.builtin Native.printOne.builtin, .int 0, .function func,
        .function ⟨"g", [], none, 3, {}⟩]
      entry := 7 }
  let program' : Program Native :=
    { code := #[.loadGlobal "print_one", .loadGlobal "f", .invoke 1, .ret, .loadLocal 0 .int,
        .assignGlobal "x", .ret, .loadGlobal "f", .push (.int 2), .invoke 1, .loadGlobal "g",
        .invoke 0]
      globals := ⟨[⟨"print_one", .builtin⟩, ⟨"g", .function⟩, ⟨"f", .function⟩, ⟨"x", .int⟩]⟩
      memory := #[.builtin Native.printOne.builtin, .function ⟨"g", [], none, 0, {}⟩,
        .function { func with entry := 4 }, .int 0]
      entry := 7 }
  let completed : Machine Native :=
    { pc := 12, memory := program.memory.setIfInBounds 1 (.int 2),
      output := { bytes := "<function f>\n".toUTF8 } }
  have hfirst : ∃ source after, Written source declared main ∧
      compile [Native.printOne.builtin] source #[] = .ok program after :=
    ⟨"var x int func f(n int) \x7b x = n \x7d " ++ "func g() \x7b print_one(f) \x7d f(2) g()", _,
      ⟨by cbv, by decide⟩, by cbv⟩
  have hsecond : ∃ source after, Written source declared.reverse main ∧
      compile [Native.printOne.builtin] source #[] = .ok program' after :=
    ⟨"func g() \x7b print_one(f) \x7d " ++ "func f(n int) \x7b x = n \x7d var x int f(2) g()", _,
      ⟨by cbv, by decide⟩, by cbv⟩
  obtain ⟨source, after, hwritten, hcompile⟩ := hfirst
  obtain ⟨source', after', hwritten', hcompile'⟩ := hsecond
  have hrun : (Machine.start program {}).Ends program .completed completed.store :=
    ⟨20, .completed, completed, by cbv, rfl, rfl⟩
  have hperm := declared.reverse_perm.symm
  obtain ⟨hlike, -⟩ := (declaration_order hwritten hwritten' hperm #[] #[]).2
    Native.ignoresPositions _ _ _ _ hcompile hcompile'
  obtain ⟨store', hrun', halike⟩ := hlike {} .completed _ hrun
  exact ⟨source, source', declared, main, program, program', after, after', _, store', hwritten,
    hwritten', hcompile, hcompile', by decide, by decide, hrun, hrun', halike⟩

end Script

/-! ## A native that looks at positions -/

/-- A native that prints where the code of a function starts. -/
inductive Locator where
  | entry

namespace Locator

/-- Prints the position of the function that it is given. -/
def locate (_ : Locator) : List (Value Locator) → NativeCall Flow
  | [.function func] => do
      Native.printLine (toString func.entry)
      return .proceed
  | arguments => throw (.arity 1 arguments.length)

instance host : Host Locator := ⟨locate⟩

/-- It is known by this name. -/
def builtin : Builtin Locator :=
  ⟨"locate", .entry⟩

end Locator

/-- With a native that looks at positions the order of declarations shows in the output. -/
theorem Script.declaration_order_located :
    ∃ (source source' : String) (declared : List Declared) (main : List (Option Terminal))
      (program program' : Program Locator) (after after' : Array Event)
      (store store' : Store Locator),
      Written source declared main ∧ Written source' declared.reverse main ∧
      compile [Locator.builtin] source #[] = .ok program after ∧
      compile [Locator.builtin] source' #[] = .ok program' after' ∧
      (Machine.start program {}).Ends program .completed store ∧
      (Machine.start program' {}).Ends program' .completed store' ∧
      store.output = { bytes := "0\n".toUTF8 } ∧ store'.output = { bytes := "1\n".toUTF8 } ∧
      ¬program.EndsLike program' := by
  let declared : List Declared :=
    [.function "f" [] (by simp) none (by simp) [] rfl,
      .function "g" [] (by simp) none (by simp) [] rfl]
  let main : List (Option Terminal) :=
    [.identifier "locate", .mark "(", .identifier "f", .mark ")", .endOfInput].map some
  let program : Program Locator :=
    { code := #[.ret, .ret, .loadGlobal "locate", .loadGlobal "f", .invoke 1]
      globals := ⟨[⟨"locate", .builtin⟩, ⟨"f", .function⟩, ⟨"g", .function⟩]⟩
      memory := #[.builtin Locator.builtin, .function ⟨"f", [], none, 0, {}⟩,
        .function ⟨"g", [], none, 1, {}⟩]
      entry := 2 }
  let program' : Program Locator :=
    { code := #[.ret, .ret, .loadGlobal "locate", .loadGlobal "f", .invoke 1]
      globals := ⟨[⟨"locate", .builtin⟩, ⟨"g", .function⟩, ⟨"f", .function⟩]⟩
      memory := #[.builtin Locator.builtin, .function ⟨"g", [], none, 0, {}⟩,
        .function ⟨"f", [], none, 1, {}⟩]
      entry := 2 }
  let completed : Machine Locator :=
    { pc := 5, memory := program.memory, output := { bytes := "0\n".toUTF8 } }
  let completed' : Machine Locator :=
    { pc := 5, memory := program'.memory, output := { bytes := "1\n".toUTF8 } }
  have hfirst : ∃ source after, Written source declared main ∧
      compile [Locator.builtin] source #[] = .ok program after :=
    ⟨"func f() \x7b\x7d func g() \x7b\x7d locate(f)", _, ⟨by cbv, by decide⟩, by cbv⟩
  have hsecond : ∃ source after, Written source declared.reverse main ∧
      compile [Locator.builtin] source #[] = .ok program' after :=
    ⟨"func g() \x7b\x7d func f() \x7b\x7d locate(f)", _, ⟨by cbv, by decide⟩, by cbv⟩
  obtain ⟨source, after, hwritten, hcompile⟩ := hfirst
  obtain ⟨source', after', hwritten', hcompile'⟩ := hsecond
  have hends : (Machine.start program {}).Ends program .completed completed.store :=
    ⟨9, .completed, completed, by cbv, rfl, rfl⟩
  have hends' : (Machine.start program' {}).Ends program' .completed completed'.store :=
    ⟨9, .completed, completed', by cbv, rfl, rfl⟩
  refine ⟨source, source', declared, main, program, program', after, after', _, _, hwritten,
    hwritten', hcompile, hcompile', hends, hends', rfl, rfl, fun hlike => ?_⟩
  obtain ⟨store', hother, halike⟩ := hlike {} .completed _ hends
  obtain ⟨-, rfl⟩ := hends'.unique hother
  have hsame : "0\n".toUTF8 = "1\n".toUTF8 := congrArg Sink.bytes halike.output
  exact absurd (String.toByteArray_inj.1 hsame) (by decide)

end StackScript
