import StackScript.Proofs.Compilation

/-!
# The program of a tree

The tree of a script and the builtins determine its program: functions are laid out in the order of
their definitions, the top-level code follows them, and every global has the cell of its place.
-/

namespace StackScript

variable {ν : Type}

/-- The length of the code of a definition: that of a function's body and of the return after it. -/
def Definition.size : Definition → Nat
  | .variable _ _ => 0
  | .function _ _ body => Block.size body + 1

namespace Placed

/-- Definitions with their code in a row from `start` on. -/
def inRow (start : Nat) : List Definition → List Placed
  | [] => []
  | first :: rest => ⟨first, start⟩ :: inRow (start + first.size) rest

/-- Functions whose code stands in a row are where `inRow` has them. Variables have no code, so it
does not matter where they are placed. -/
theorem eq_inRow {placed : List Placed} {start stop : Nat}
    (h : Laid start (placed.filterMap compiled?) stop) :
    placed.map (value (ν := ν)) = (inRow start (placed.map (·.definition))).map value ∧
      placed.filterMap compiled? =
        (inRow start (placed.map (·.definition))).filterMap compiled? := by
  induction placed generalizing start with
  | nil => exact ⟨rfl, rfl⟩
  | cons first rest ih =>
      obtain ⟨definition, entry⟩ := first
      match definition with
      | .variable name type =>
          obtain ⟨hvalues, hbodies⟩ := ih h
          exact ⟨congrArg (_ :: ·) hvalues, hbodies⟩
      | .function signature locals body =>
          obtain ⟨rfl, hrest⟩ := h
          obtain ⟨hvalues, hbodies⟩ := ih hrest
          exact ⟨congrArg (_ :: ·) hvalues, congrArg (_ :: ·) hbodies⟩

theorem definition_mem_of_mem_inRow {start : Nat} {definitions : List Definition} {one : Placed}
    (h : one ∈ inRow start definitions) : one.definition ∈ definitions := by
  induction definitions generalizing start with
  | nil => cases h
  | cons first rest ih =>
      rcases List.mem_cons.1 h with rfl | h
      · exact List.mem_cons_self
      · exact List.mem_cons_of_mem _ (ih h)

/-- The code of definitions in a row has no gaps. -/
theorem laid_inRow (start : Nat) (definitions : List Definition) :
    Laid start ((inRow start definitions).filterMap compiled?)
      (start + (((inRow start definitions).filterMap compiled?).flatMap Compiled.code).length) := by
  induction definitions generalizing start with
  | nil => rfl
  | cons first rest ih =>
      match first with
      | .variable name type => exact ih start
      | .function signature locals body =>
          refine ⟨rfl, ?_⟩
          have hrest := ih (start + (Block.size body + 1))
          simpa [Compiled.last, Compiled.length_code, Signature.func, Definition.size, inRow,
            compiled?, Nat.add_assoc] using hrest

/-- The functions among the values of definitions are those that were compiled. -/
theorem functions_eq (placed : List Placed) :
    (placed.map (value (ν := ν))).filterMap Value.function? =
      (placed.filterMap compiled?).map Compiled.func := by
  induction placed with
  | nil => rfl
  | cons first rest ih =>
      obtain ⟨definition, entry⟩ := first
      match definition with
      | .variable name type => cases type <;> exact ih
      | .function signature locals body => exact congrArg (_ :: ·) ih

end Placed

namespace Script.Tree

/-- The program of a tree. -/
def program (natives : List (Builtin ν)) (tree : Tree) : Program ν :=
  let placed := Placed.inRow 0 tree.definitions
  let bodies := (placed.filterMap Placed.compiled?).flatMap Compiled.code
  { code := (bodies ++ Block.code bodies.length tree.main).toArray
    globals := tree.globals natives
    memory := (natives.map Value.builtin ++ placed.map Placed.value).toArray
    entry := bodies.length }

/-- The functions of a tree with their bodies, in the order of their definitions. -/
def bodies (tree : Tree) : List Compiled :=
  (Placed.inRow 0 tree.definitions).filterMap Placed.compiled?

theorem definition_of_mem_bodies {tree : Tree} {compiled : Compiled} (h : compiled ∈ tree.bodies) :
    ∃ signature locals, .function signature locals compiled.body ∈ tree.definitions ∧
      compiled.func.name = signature.name := by
  obtain ⟨one, hone, hcompiled⟩ := List.mem_filterMap.1 h
  obtain ⟨signature, locals, hdefinition, hfunc⟩ := Placed.compiled?_eq_some.1 hcompiled
  refine ⟨signature, locals, ?_, by rw [hfunc]; rfl⟩
  rw [← hdefinition]
  exact Placed.definition_mem_of_mem_inRow hone

theorem laid_bodies (natives : List (Builtin ν)) (tree : Tree) :
    Laid 0 tree.bodies (tree.program natives).entry := by
  have hlaid := Placed.laid_inRow 0 tree.definitions
  rwa [Nat.zero_add] at hlaid

theorem toList_code_program (natives : List (Builtin ν)) (tree : Tree) :
    (tree.program natives).code.toList =
      tree.bodies.flatMap Compiled.code ++ Block.code (tree.program natives).entry tree.main := rfl

theorem functions_program (natives : List (Builtin ν)) (tree : Tree) :
    (tree.program natives).functions = tree.bodies.map Compiled.func := by
  have hbuiltins : (natives.map Value.builtin).filterMap Value.function? = [] := by
    simp [List.filterMap_map, Function.comp_def, Value.function?]
  simp only [Program.functions, program, List.filterMap_append, hbuiltins, List.nil_append]
  exact Placed.functions_eq _

/-- A program with the globals, the values and the layout of a tree is the program of that tree. -/
theorem program_eq {natives : List (Builtin ν)} {placed : List Placed} {main : Block}
    {program : Program ν}
    (hglobals : program.globals = globals natives ⟨placed.map (·.definition), main⟩)
    (hmemory : program.memory.toList = natives.map Value.builtin ++ placed.map Placed.value)
    (hlayout : program.Layout (placed.filterMap Placed.compiled?) main) :
    program = Tree.program natives ⟨placed.map (·.definition), main⟩ := by
  obtain ⟨code, globals, memory, entry⟩ := program
  obtain ⟨hvalues, hbodies⟩ := Placed.eq_inRow (ν := ν) hlayout.laid
  have hentry := hlayout.laid.length
  have hcode := hlayout.code
  rw [Nat.zero_add] at hentry
  simp only at hglobals hmemory hentry hcode
  rw [hbodies] at hentry hcode
  subst hentry
  rw [hvalues] at hmemory
  rw [Tree.program, hglobals, ← hmemory, ← hcode]

end Script.Tree

namespace Script

variable {natives : List (Builtin ν)} {source : String} {program : Program ν}

/-- A script compiles to the program of its tree. -/
theorem program_of_compile {events events' : Array Event}
    (h : compile natives source events = .ok program events') :
    ∃ tree events'', Script.tree source events = .ok tree events'' ∧
      program = tree.program natives := by
  obtain ⟨placed, main, events'', htree, hglobals, hmemory, hlayout⟩ := compile_placed h
  refine ⟨_, events'', htree, Tree.program_eq hglobals ?_ hlayout⟩
  rw [hmemory, Tree.memory, List.map_map,
    List.map_congr_left fun one hmem => Placed.value_label hlayout hmem]
  rfl

/-- A script that is read as a tree whose globals have different names compiles to the program of
that tree. -/
theorem compile_eq_program {tree : Tree} {events events' : Array Event}
    (htree : Script.tree source events = .ok tree events')
    (hdistinct : (tree.globals natives).names.Nodup) :
    ∃ events'', compile natives source events = .ok (tree.program natives) events'' := by
  obtain ⟨program, events'', hcompile⟩ := compile_of_tree htree hdistinct
  obtain ⟨tree', _, htree', rfl⟩ := program_of_compile hcompile
  obtain ⟨rfl, -⟩ := EStateM.Result.ok.inj (htree.symm.trans htree')
  exact ⟨events'', hcompile⟩

end Script

end StackScript
