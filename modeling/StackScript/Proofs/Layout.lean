import StackScript.Script
import StackScript.Proofs.Acceptance

/-!
# The layout of programs

Whatever is done with a builder, its code is a row of function bodies, each of which ends with a
return and stands where the function's entry says, and the functions in memory are exactly those.
In a program the top-level code follows the bodies. Jumps stay inside the block they belong to.
-/

namespace StackScript

variable {ν : Type}

/-! ## Instructions of a block -/

/-- The instruction works on the locals of the running function. -/
def Instruction.usesFrame : Instruction → Bool
  | .loadLocal _ _ | .setLocal _ _ => true
  | _ => false

namespace Expr

mutual

theorem jumpIfZero_notMem_code (target : Nat) : ∀ expression : Expr,
    .jumpIfZero target ∉ expression.code
  | .literal _ => by simp [code]
  | .variable place => by cases place <;> simp [code, Place.load]
  | .call callee arguments => by
      simp [code, jumpIfZero_notMem_code target callee,
        jumpIfZero_notMem_codeAll target arguments]
  | .binary left _ right => by
      simp [code, jumpIfZero_notMem_code target left, jumpIfZero_notMem_code target right]

theorem jumpIfZero_notMem_codeAll (target : Nat) : ∀ list : List Expr,
    .jumpIfZero target ∉ codeAll list
  | [] => by simp [codeAll]
  | first :: rest => by
      simp [codeAll, jumpIfZero_notMem_code target first, jumpIfZero_notMem_codeAll target rest]

end

end Expr

mutual

theorem Stmt.target_of_mem_code {target : Nat} : ∀ (statement : Stmt) (start : Nat),
    .jumpIfZero target ∈ statement.code start →
      start ≤ target ∧ target ≤ start + statement.size
  | .skip, _, h | .declare _ _, _, h | .ret, _, h => by simp [Stmt.code] at h
  | .branch test body, start, h => by
      simp only [Stmt.code, List.mem_append, Expr.jumpIfZero_notMem_code, List.mem_cons,
        false_or, Instruction.jumpIfZero.injEq] at h
      simp only [Stmt.size]
      rcases h with rfl | h
      · omega
      · have hbody := Block.target_of_mem_code body _ h
        omega
  | .loop test body, start, h => by
      simp only [Stmt.code, List.mem_append, Expr.jumpIfZero_notMem_code, List.mem_cons,
        false_or, Instruction.jumpIfZero.injEq, reduceCtorEq, List.not_mem_nil, or_false] at h
      simp only [Stmt.size]
      rcases h with rfl | h | rfl
      · omega
      · have hbody := Block.target_of_mem_code body _ h
        omega
      · omega
  | .assign target _, _, h => by
      cases target <;> simp [Stmt.code, Expr.jumpIfZero_notMem_code, Place.store] at h
  | .evaluate term, _, h => by
      simp only [Stmt.code, List.mem_append, Expr.jumpIfZero_notMem_code, false_or] at h
      split at h <;> simp at h

/-- A jump leads into the block it stands in, or right behind it. -/
theorem Block.target_of_mem_code {target : Nat} : ∀ (block : Block) (start : Nat),
    .jumpIfZero target ∈ Block.code start block →
      start ≤ target ∧ target ≤ start + Block.size block
  | [], _, h => by simp [Block.code] at h
  | first :: rest, start, h => by
      simp only [Block.code, List.mem_append] at h
      simp only [Block.size]
      rcases h with h | h
      · have hfirst := Stmt.target_of_mem_code first start h
        omega
      · have hrest := Block.target_of_mem_code rest _ h
        omega

end

namespace Grammar

/-- The second table has the locals of the first in the same slots, and maybe more after them. -/
def Extends : Option SlotTable → Option SlotTable → Prop
  | none, none => True
  | some table, some final => table.entries <+: final.entries
  | _, _ => False

theorem Extends.refl (locals : Option SlotTable) : Extends locals locals := by
  cases locals with
  | none => trivial
  | some table => exact List.prefix_refl table.entries

theorem Extends.trans {locals middle final : Option SlotTable} (h : Extends locals middle)
    (h' : Extends middle final) : Extends locals final := by
  match locals, middle, final with
  | none, none, none => trivial
  | some _, some _, some _ => exact List.IsPrefix.trans h h'

theorem extends_declareIn (locals : Option SlotTable) (name : String) (type : TypeTag) :
    Extends locals (declareIn locals name type) := by
  cases locals with
  | none => trivial
  | some table => exact List.prefix_append table.entries _

mutual

theorem Statement.extends_localsAfter (locals : Option SlotTable) (statement : Statement) :
    Extends locals (statement.localsAfter locals) := by
  match statement with
  | .branch _ body | .loop _ body => exact extends_blockLocalsAfter locals body
  | .declare name type _ => exact extends_declareIn locals name type
  | .empty | .ret | .assign _ _ _ | .evaluate _ _ _ => exact .refl locals

/-- Statements only add locals. -/
theorem extends_blockLocalsAfter (locals : Option SlotTable) (block : List Statement) :
    Extends locals (blockLocalsAfter locals block) := by
  match block with
  | [] => exact .refl locals
  | first :: rest =>
      have hrest := extends_blockLocalsAfter (first.localsAfter locals) rest
      exact (first.extends_localsAfter locals).trans hrest

end

/-- Where there is a table of locals, there still is one after a block. -/
theorem exists_blockLocalsAfter (table : SlotTable) (block : List Statement) :
    ∃ final, blockLocalsAfter (some table) block = some final := by
  have hgrows := extends_blockLocalsAfter (some table) block
  cases hfinal : blockLocalsAfter (some table) block with
  | none =>
      rw [hfinal] at hgrows
      exact hgrows.elim
  | some final => exact ⟨final, rfl⟩

/-- A property of the instructions that a block is made of: those that do not work on locals have
it, and so have those that do if their slot was found in a table that grows into `final`. -/
structure Covers (final : Option SlotTable) (Holds : Instruction → Prop) : Prop where
  plain : ∀ instruction, instruction.usesFrame = false → Holds instruction
  load : ∀ locals name, Extends locals final → Holds (place locals name).load
  store : ∀ locals name, Extends locals final → Holds (place locals name).store

section Covers

variable {final : Option SlotTable} {Holds : Instruction → Prop}

theorem Term.forall_code {locals : Option SlotTable} (h : Covers final Holds)
    (hlocals : Extends locals final) (term : Term) :
    ∀ instruction ∈ (term.tree locals).code, Holds instruction := by
  intro instruction hmem
  cases term with
  | number | string =>
      obtain rfl := List.mem_singleton.1 hmem
      exact h.plain _ rfl
  | identifier name =>
      obtain rfl := List.mem_singleton.1 hmem
      exact h.load locals name hlocals

mutual

theorem Expression.forall_code {locals : Option SlotTable} (h : Covers final Holds)
    (hlocals : Extends locals final) (expression : Expression) :
    ∀ instruction ∈ (expression.tree locals).code, Holds instruction := by
  match expression with
  | .plain term calls => exact callTree_forall_code h hlocals calls _ (term.forall_code h hlocals)
  | .operation term calls operator right =>
      have hleft := callTree_forall_code h hlocals calls _ (term.forall_code h hlocals)
      have hright := right.forall_code h hlocals
      intro instruction hmem
      simp only [Expression.tree, Expr.code, List.mem_append, List.mem_singleton] at hmem
      rcases hmem with hmem | hmem | rfl
      · exact hleft instruction hmem
      · exact hright instruction hmem
      · exact h.plain _ rfl

theorem callTree_forall_code {locals : Option SlotTable} (h : Covers final Holds)
    (hlocals : Extends locals final) (calls : List (List Expression)) (callee : Expr)
    (hcallee : ∀ instruction ∈ callee.code, Holds instruction) :
    ∀ instruction ∈ (callTree locals callee calls).code, Holds instruction := by
  match calls with
  | [] => exact hcallee
  | arguments :: rest =>
      have harguments := argumentTrees_forall_code h hlocals arguments
      refine callTree_forall_code h hlocals rest _ fun instruction hmem => ?_
      simp only [Expr.code, List.mem_append, List.mem_singleton] at hmem
      rcases hmem with hmem | hmem | rfl
      · exact hcallee instruction hmem
      · exact harguments instruction hmem
      · exact h.plain _ rfl

theorem argumentTrees_forall_code {locals : Option SlotTable} (h : Covers final Holds)
    (hlocals : Extends locals final) (arguments : List Expression) :
    ∀ instruction ∈ Expr.codeAll (argumentTrees locals arguments), Holds instruction := by
  match arguments with
  | [] => simp [argumentTrees, Expr.codeAll]
  | first :: rest =>
      have hfirst := first.forall_code h hlocals
      have hrest := argumentTrees_forall_code h hlocals rest
      intro instruction hmem
      simp only [argumentTrees, Expr.codeAll, List.mem_append] at hmem
      exact hmem.elim (hfirst instruction) (hrest instruction)

end

mutual

theorem Statement.forall_code {locals : Option SlotTable} (h : Covers final Holds)
    (statement : Statement) (hlocals : Extends (statement.localsAfter locals) final)
    (start : Nat) :
    ∀ instruction ∈ (statement.tree locals).code start, Holds instruction := by
  have hbefore := (statement.extends_localsAfter locals).trans hlocals
  match statement with
  | .empty | .declare _ _ _ => simp [Statement.tree, Stmt.code]
  | .ret =>
      intro instruction hmem
      obtain rfl := List.mem_singleton.1 hmem
      exact h.plain _ rfl
  | .branch test body =>
      have htest := test.forall_code h hbefore
      have hbody := blockTree_forall_code h body hlocals
      intro instruction hmem
      simp only [Statement.tree, Stmt.code, List.mem_append, List.mem_cons] at hmem
      rcases hmem with hmem | rfl | hmem
      · exact htest instruction hmem
      · exact h.plain _ rfl
      · exact hbody _ instruction hmem
  | .loop test body =>
      have htest := test.forall_code h hbefore
      have hbody := blockTree_forall_code h body hlocals
      intro instruction hmem
      simp only [Statement.tree, Stmt.code, List.mem_append, List.mem_cons, List.not_mem_nil,
        or_false] at hmem
      rcases hmem with hmem | rfl | hmem | rfl | rfl
      · exact htest instruction hmem
      · exact h.plain _ rfl
      · exact hbody _ instruction hmem
      · exact h.plain _ rfl
      · exact h.plain _ rfl
  | .assign name _ value =>
      have hvalue := value.forall_code h hbefore
      intro instruction hmem
      simp only [Statement.tree, Stmt.code, List.mem_append, List.mem_singleton] at hmem
      rcases hmem with hmem | rfl
      · exact hvalue instruction hmem
      · exact h.store locals name hbefore
  | .evaluate term _ calls =>
      have hterm := callTree_forall_code h hbefore calls _ (term.forall_code h hbefore)
      intro instruction hmem
      simp only [Statement.tree, Stmt.code, List.mem_append] at hmem
      rcases hmem with hmem | hmem
      · exact hterm instruction hmem
      · split at hmem
        · cases hmem
        · obtain rfl := List.mem_singleton.1 hmem
          exact h.plain _ rfl

/-- A property that covers the instructions of a block holds of all of them. -/
theorem blockTree_forall_code {locals : Option SlotTable} (h : Covers final Holds)
    (block : List Statement) (hlocals : Extends (blockLocalsAfter locals block) final)
    (start : Nat) :
    ∀ instruction ∈ Block.code start (blockTree locals block), Holds instruction := by
  match block with
  | [] => simp [blockTree, Block.code]
  | first :: rest =>
      have hafter := (extends_blockLocalsAfter (first.localsAfter locals) rest).trans hlocals
      have hfirst := first.forall_code h hafter start
      intro instruction hmem
      rw [blockTree, Block.code, List.mem_append] at hmem
      exact hmem.elim (hfirst instruction) (blockTree_forall_code h rest hlocals _ instruction)

end

end Covers

/-- Without a table of locals, no instruction works on locals. -/
theorem blockTree_usesFrame (block : List Statement) (start : Nat) :
    ∀ instruction ∈ Block.code start (blockTree none block), instruction.usesFrame = false := by
  have hnone : ∀ locals name, Extends locals none → place locals name = .global name := by
    intro locals name hlocals
    cases locals with
    | none => rfl
    | some table => exact hlocals.elim
  have hcovers : Covers (blockLocalsAfter none block) (·.usesFrame = false) := by
    have hafter : blockLocalsAfter none block = none := by
      cases hlocals : blockLocalsAfter none block with
      | none => rfl
      | some table =>
          have hextends := extends_blockLocalsAfter none block
          rw [hlocals] at hextends
          exact hextends.elim
    rw [hafter]
    refine ⟨fun _ h => h, fun locals name h => ?_, fun locals name h => ?_⟩
    · rw [hnone locals name h]
      rfl
    · rw [hnone locals name h]
      rfl
  exact blockTree_forall_code hcovers block (.refl _) start

end Grammar

/-! ## Bodies in a row -/

/-- A function together with the tree of its body. -/
structure Compiled where
  func : Func
  body : Block

namespace Compiled

/-- The code of the body and the return that ends it. -/
def code (compiled : Compiled) : List Instruction :=
  Block.code compiled.func.entry compiled.body ++ [.ret]

/-- The position of the return that ends the body. -/
def last (compiled : Compiled) : Nat :=
  compiled.func.entry + Block.size compiled.body

theorem length_code (compiled : Compiled) :
    compiled.code.length = Block.size compiled.body + 1 := by
  simp [code, Block.length_code]

end Compiled

/-- The bodies stand one after the other from `start` up to `stop`. -/
def Laid : (start : Nat) → List Compiled → (stop : Nat) → Prop
  | start, [], stop => start = stop
  | start, first :: rest, stop => first.func.entry = start ∧ Laid (first.last + 1) rest stop

namespace Laid

variable {start stop : Nat} {bodies : List Compiled} {compiled other : Compiled}

theorem append (h : Laid start bodies stop) (hentry : compiled.func.entry = stop) :
    Laid start (bodies ++ [compiled]) (compiled.last + 1) := by
  induction bodies generalizing start with
  | nil => exact ⟨hentry.trans h.symm, rfl⟩
  | cons first rest ih => exact ⟨h.1, ih h.2⟩

theorem length (h : Laid start bodies stop) :
    start + (bodies.flatMap Compiled.code).length = stop := by
  induction bodies generalizing start with
  | nil => exact h
  | cons first rest ih =>
      obtain ⟨rfl, hrest⟩ := h
      have hrest := ih hrest
      simp only [List.flatMap_cons, List.length_append, Compiled.length_code, Compiled.last] at *
      omega

theorem bounds (h : Laid start bodies stop) (hmem : compiled ∈ bodies) :
    start ≤ compiled.func.entry ∧ compiled.last < stop := by
  induction bodies generalizing start with
  | nil => cases hmem
  | cons first rest ih =>
      obtain ⟨rfl, hrest⟩ := h
      rcases List.mem_cons.1 hmem with rfl | hmem
      · have hstop := hrest.length
        omega
      · have hbounds := ih hrest hmem
        simp only [Compiled.last] at *
        omega

/-- A body that starts after another one starts after its end. -/
theorem separate (h : Laid start bodies stop) (hmem : compiled ∈ bodies) (hother : other ∈ bodies)
    (hlt : compiled.func.entry < other.func.entry) : compiled.last < other.func.entry := by
  induction bodies generalizing start with
  | nil => cases hmem
  | cons first rest ih =>
      obtain ⟨rfl, hrest⟩ := h
      rcases List.mem_cons.1 hmem with rfl | hin <;> rcases List.mem_cons.1 hother with rfl | hin'
      · omega
      · exact (hrest.bounds hin').1
      · have hbounds := hrest.bounds hin
        simp only [Compiled.last] at hbounds
        omega
      · exact ih hrest hin hin'

/-- Right after a body there is another one, or the end. -/
theorem next (h : Laid start bodies stop) (hmem : compiled ∈ bodies) :
    compiled.last + 1 = stop ∨ ∃ other ∈ bodies, other.func.entry = compiled.last + 1 := by
  induction bodies generalizing start with
  | nil => cases hmem
  | cons first rest ih =>
      obtain ⟨rfl, hrest⟩ := h
      rcases List.mem_cons.1 hmem with rfl | hmem
      · cases rest with
        | nil => exact .inl hrest
        | cons second rest => exact .inr ⟨second, by simp, hrest.1⟩
      · rcases ih hrest hmem with hstop | ⟨other, hother, hentry⟩
        · exact .inl hstop
        · exact .inr ⟨other, List.mem_cons_of_mem _ hother, hentry⟩

theorem eq_of_entry_eq (h : Laid start bodies stop) (hmem : compiled ∈ bodies)
    (hother : other ∈ bodies) (hentry : compiled.func.entry = other.func.entry) :
    compiled = other := by
  induction bodies generalizing start with
  | nil => cases hmem
  | cons first rest ih =>
      obtain ⟨rfl, hrest⟩ := h
      rcases List.mem_cons.1 hmem with rfl | hin <;> rcases List.mem_cons.1 hother with rfl | hin'
      · rfl
      · have hbounds := hrest.bounds hin'
        simp only [Compiled.last] at hbounds
        omega
      · have hbounds := hrest.bounds hin
        simp only [Compiled.last] at hbounds
        omega
      · exact ih hrest hin hin'

/-- The code of a body stands at its entry. -/
theorem getElem?_code (h : Laid start bodies stop) (hmem : compiled ∈ bodies) {index : Nat}
    {instruction : Instruction} (hcode : compiled.code[index]? = some instruction) :
    (bodies.flatMap Compiled.code)[compiled.func.entry - start + index]? = some instruction := by
  induction bodies generalizing start with
  | nil => cases hmem
  | cons first rest ih =>
      obtain ⟨rfl, hrest⟩ := h
      rcases List.mem_cons.1 hmem with rfl | hmem
      · rw [Nat.sub_self, Nat.zero_add, List.flatMap_cons]
        obtain ⟨hlt, -⟩ := List.getElem?_eq_some_iff.1 hcode
        rw [List.getElem?_append_left hlt, hcode]
      · have hbounds := hrest.bounds hmem
        have hlength := first.length_code
        simp only [Compiled.last] at hbounds
        rw [List.flatMap_cons, List.getElem?_append_right (by omega)]
        have hfound := ih hrest hmem
        rw [← hfound]
        simp only [Compiled.last]
        congr 1
        omega

end Laid

namespace Program

/-- The code is that of some functions with their bodies in a row, followed by the top-level code,
and these are the functions in memory. -/
structure Layout (program : Program ν) (bodies : List Compiled) (main : Block) : Prop where
  code : program.code.toList = bodies.flatMap Compiled.code ++ Block.code program.entry main
  laid : Laid 0 bodies program.entry
  functions : ∀ func, .function func ∈ program.memory ↔ ∃ compiled ∈ bodies, compiled.func = func
  named : ∀ compiled ∈ bodies, ∀ other ∈ bodies,
    compiled.func.name = other.func.name → compiled = other
  topLevel : ∀ instruction ∈ Block.code program.entry main, instruction.usesFrame = false

/-- The code holds a fragment from a position on. -/
def Holds (program : Program ν) (start : Nat) (fragment : List Instruction) : Prop :=
  ∀ ⦃index instruction⦄, fragment[index]? = some instruction →
    program.code[start + index]? = some instruction

variable {program : Program ν} {start : Nat} {instruction : Instruction}
  {fragment rest : List Instruction}

theorem Holds.head (h : program.Holds start (instruction :: rest)) :
    program.code[start]? = some instruction :=
  h (show (instruction :: rest)[0]? = some instruction from rfl)

theorem Holds.tail (h : program.Holds start (instruction :: rest)) :
    program.Holds (start + 1) rest := by
  intro index _ hindex
  rw [Nat.add_assoc, Nat.add_comm 1]
  exact h hindex

theorem Holds.left (h : program.Holds start (fragment ++ rest)) : program.Holds start fragment := by
  intro index instruction hindex
  obtain ⟨hlt, -⟩ := List.getElem?_eq_some_iff.1 hindex
  exact h (by rwa [List.getElem?_append_left hlt])

theorem Holds.right (h : program.Holds start (fragment ++ rest)) :
    program.Holds (start + fragment.length) rest := by
  intro index instruction hindex
  rw [Nat.add_assoc]
  apply h
  rwa [List.getElem?_append_right (Nat.le_add_right _ _), Nat.add_sub_cancel_left]

namespace Layout

variable {bodies : List Compiled} {main : Block} {compiled : Compiled}

theorem size_code (h : program.Layout bodies main) :
    program.code.size = program.entry + Block.size main := by
  have hlength := h.laid.length
  rw [← Array.length_toList, h.code, List.length_append, Block.length_code]
  omega

theorem holds_body (h : program.Layout bodies main) (hmem : compiled ∈ bodies) :
    program.Holds compiled.func.entry compiled.code := by
  intro index instruction hindex
  have hcode := h.laid.getElem?_code hmem hindex
  obtain ⟨hlt, -⟩ := List.getElem?_eq_some_iff.1 hcode
  rw [Nat.sub_zero] at hcode hlt
  rw [← Array.getElem?_toList, h.code, List.getElem?_append_left hlt, hcode]

theorem holds_main (h : program.Layout bodies main) :
    program.Holds program.entry (Block.code program.entry main) := by
  intro index instruction hindex
  have hlength := h.laid.length
  rw [Nat.zero_add] at hlength
  rw [← Array.getElem?_toList, h.code, List.getElem?_append_right (by omega), hlength,
    Nat.add_sub_cancel_left, hindex]

theorem mainCode (h : program.Layout bodies main) :
    program.mainCode = Block.code program.entry main := by
  have hlength := h.laid.length
  rw [Nat.zero_add] at hlength
  rw [Program.mainCode, h.code, ← hlength, List.drop_left]

/-- The layout depends on the code of the top-level block only. -/
theorem of_mainCode (h : program.Layout bodies main) {other : Block}
    (hother : program.mainCode = Block.code program.entry other) :
    program.Layout bodies other := by
  have hcode := h.mainCode.symm.trans hother
  exact ⟨hcode ▸ h.code, h.laid, h.functions, h.named, hcode ▸ h.topLevel⟩

theorem mem_functions (h : program.Layout bodies main) {func : Func} :
    func ∈ program.functions ↔ ∃ compiled ∈ bodies, compiled.func = func := by
  rw [← h.functions, Program.functions, List.mem_filterMap]
  constructor
  · rintro ⟨value, hvalue, hfunc⟩
    cases value <;> cases hfunc
    exact Array.mem_toList_iff.1 hvalue
  · intro hfunc
    exact ⟨_, Array.mem_toList_iff.2 hfunc, rfl⟩

end Layout

end Program

end StackScript
