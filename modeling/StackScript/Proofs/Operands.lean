import StackScript.Proofs.ActiveCalls

/-!
# How many operands the code expects

Counting what each instruction takes and gives, from the start of the code on, says for every
position how many operands belong there if calls left no values and took none but their own. In
compiled code the count is zero at the start of every function and of the top-level code, where
jumps lead and before every return.
-/

namespace StackScript

variable {ν : Type}

namespace Instruction

/-- How many operands the instruction takes. -/
def takes : Instruction → Nat
  | .push _ | .loadGlobal _ | .loadLocal _ _ | .ret => 0
  | .assignGlobal _ | .setLocal _ _ | .jumpIfZero _ | .pop => 1
  | .binary _ => 2
  | .invoke arguments => arguments + 1

/-- How many operands the instruction gives. A call leaves no value. -/
def gives : Instruction → Nat
  | .push _ | .loadGlobal _ | .loadLocal _ _ | .binary _ => 1
  | .assignGlobal _ | .setLocal _ _ | .jumpIfZero _ | .pop | .invoke _ | .ret => 0

/-- The operands behind an instruction. What follows a return is reached by other ways only. -/
def operandsAfter (instruction : Instruction) (operands : Nat) : Nat :=
  if instruction = .ret then 0 else operands - instruction.takes + instruction.gives

end Instruction

namespace Program

/-- The operands before the instruction at a position. -/
def operandsAt (program : Program ν) (position : Nat) : Nat :=
  (program.code.toList.take position).foldl (fun operands instruction =>
    instruction.operandsAfter operands) 0

variable {program : Program ν}

theorem operandsAt_zero : program.operandsAt 0 = 0 :=
  rfl

theorem operandsAt_succ {position : Nat} {instruction : Instruction}
    (h : program.code[position]? = some instruction) :
    program.operandsAt (position + 1) =
      instruction.operandsAfter (program.operandsAt position) := by
  have htake : program.code.toList.take (position + 1) =
      program.code.toList.take position ++ [instruction] := by
    rw [List.take_add_one, Array.getElem?_toList, h]
    rfl
  rw [operandsAt, htake, List.foldl_append]
  rfl

/-- The instructions from a position up to another have a property. -/
def Each (program : Program ν) (Holds : Nat → Instruction → Prop) (start stop : Nat) : Prop :=
  ∀ position instruction, start ≤ position → position < stop →
    program.code[position]? = some instruction → Holds position instruction

namespace Each

variable {Holds : Nat → Instruction → Prop} {start middle stop : Nat}

theorem refl (start : Nat) : program.Each Holds start start := by
  intro position instruction hstart hstop
  omega

theorem trans (h : program.Each Holds start middle) (h' : program.Each Holds middle stop) :
    program.Each Holds start stop := by
  intro position instruction hstart hstop hcode
  by_cases hmiddle : position < middle
  · exact h position instruction hstart hmiddle hcode
  · exact h' position instruction (Nat.le_of_not_lt hmiddle) hstop hcode

theorem single {instruction : Instruction} (hcode : program.code[start]? = some instruction)
    (h : Holds start instruction) : program.Each Holds start (start + 1) := by
  intro position other hstart hstop hother
  obtain rfl : position = start := by omega
  obtain rfl := Option.some.inj (hcode.symm.trans hother)
  exact h

theorem of_holds {fragment : List Instruction} (hfragment : program.Holds start fragment)
    (h : ∀ position, ∀ instruction ∈ fragment, Holds position instruction) :
    program.Each Holds start (start + fragment.length) := by
  intro position instruction hstart hstop hcode
  have hlt : position - start < fragment.length := by omega
  have hheld := hfragment (List.getElem?_eq_getElem hlt)
  rw [Nat.add_sub_cancel' hstart, hcode] at hheld
  obtain rfl := Option.some.inj hheld
  exact h position _ (List.getElem_mem hlt)

end Each

/-- A jump is taken with one operand at most and leads to where there are none, and a return has
none. -/
def Level (program : Program ν) (position : Nat) (instruction : Instruction) : Prop :=
  (∀ target, instruction = .jumpIfZero target →
    program.operandsAt position ≤ 1 ∧ program.operandsAt target = 0) ∧
  (instruction = .ret → program.operandsAt position = 0)

end Program

/-! ## Trees -/

namespace Expr

mutual

theorem ret_notMem_code (expression : Expr) : .ret ∉ expression.code := by
  match expression with
  | .literal _ => simp [code]
  | .variable place => cases place <;> simp [code, Place.load]
  | .call callee arguments =>
      simp [code, ret_notMem_code callee, ret_notMem_codeAll arguments]
  | .binary left _ right => simp [code, ret_notMem_code left, ret_notMem_code right]

theorem ret_notMem_codeAll (list : List Expr) : .ret ∉ codeAll list := by
  match list with
  | [] => simp [codeAll]
  | first :: rest => simp [codeAll, ret_notMem_code first, ret_notMem_codeAll rest]

end

variable {program : Program ν}

/-- Expressions do not jump and do not return. -/
theorem level (expression : Expr) {start : Nat} (h : program.Holds start expression.code) :
    program.Each program.Level start (start + expression.size) := by
  rw [← expression.length_code]
  refine Program.Each.of_holds h ?_
  intro position instruction hmem
  constructor
  · rintro target rfl
    exact absurd hmem (jumpIfZero_notMem_code target expression)
  · rintro rfl
    exact absurd hmem expression.ret_notMem_code

mutual

/-- An expression adds one operand at most, and a call none. -/
theorem operands_le (expression : Expr) {start : Nat} (h : program.Holds start expression.code) :
    program.operandsAt (start + expression.size) ≤
      program.operandsAt start + if expression.isCall then 0 else 1 := by
  match expression with
  | .literal value =>
      have hafter := Program.operandsAt_succ h.head
      simp [size, isCall, hafter, Instruction.operandsAfter, Instruction.takes, Instruction.gives]
  | .variable place =>
      have hafter := Program.operandsAt_succ h.head
      cases place <;> simp [size, isCall, hafter, Place.load, Instruction.operandsAfter,
        Instruction.takes, Instruction.gives]
  | .call callee arguments =>
      rw [code] at h
      have hcallee := operands_le callee h.left
      have hright := h.right
      rw [callee.length_code] at hright
      have harguments := operandsAll_le arguments hright.left
      have hinvoke := hright.right
      rw [length_codeAll] at hinvoke
      have hafter := Program.operandsAt_succ hinvoke.head
      simp only [size, isCall, ← Nat.add_assoc, hafter, Instruction.operandsAfter,
        Instruction.takes, Instruction.gives, reduceCtorEq, if_false, if_true]
      split at hcallee <;> omega
  | .binary left operator right =>
      rw [code] at h
      have hleft := operands_le left h.left
      have hrest := h.right
      rw [left.length_code] at hrest
      have hright := operands_le right hrest.left
      have hbinary := hrest.right
      rw [right.length_code] at hbinary
      have hafter := Program.operandsAt_succ hbinary.head
      simp only [size, isCall, ← Nat.add_assoc, hafter, Instruction.operandsAfter,
        Instruction.takes, Instruction.gives, reduceCtorEq, if_false]
      split at hleft <;> split at hright <;> simp <;> omega

/-- Expressions one after the other add one operand each at most. -/
theorem operandsAll_le (list : List Expr) {start : Nat} (h : program.Holds start (codeAll list)) :
    program.operandsAt (start + sizeAll list) ≤ program.operandsAt start + list.length := by
  match list with
  | [] => simp [sizeAll]
  | first :: rest =>
      rw [codeAll] at h
      have hfirst := operands_le first h.left
      have hright := h.right
      rw [first.length_code] at hright
      have hrest := operandsAll_le rest hright
      simp only [sizeAll, ← Nat.add_assoc, List.length_cons]
      split at hfirst <;> omega

end

end Expr

section Statements

variable {program : Program ν}

/-- A test leaves one operand at most, and the jump behind it takes it. -/
theorem Program.operandsAt_test (test : Expr) {start target : Nat}
    (hstart : program.operandsAt start = 0) (htest : program.Holds start test.code)
    (hjump : program.code[start + test.size]? = some (.jumpIfZero target)) :
    program.operandsAt (start + test.size) ≤ 1 ∧
      program.operandsAt (start + test.size + 1) = 0 := by
  have hle := test.operands_le htest
  have hafter := Program.operandsAt_succ hjump
  simp only [Instruction.operandsAfter, Instruction.takes, Instruction.gives, reduceCtorEq,
    if_false] at hafter
  split at hle <;> omega

mutual

theorem Stmt.level (statement : Stmt) {start : Nat}
    (h : program.Holds start (statement.code start)) (hstart : program.operandsAt start = 0) :
    program.operandsAt (start + statement.size) = 0 ∧
      program.Each program.Level start (start + statement.size) := by
  match statement with
  | .skip | .declare _ _ => exact ⟨hstart, .refl start⟩
  | .ret =>
      have hcode := h.head
      refine ⟨Program.operandsAt_succ hcode, .single hcode ⟨by simp, fun _ => hstart⟩⟩
  | .branch test body =>
      rw [Stmt.code] at h
      have hright := h.right
      rw [test.length_code] at hright
      obtain ⟨htest, hinside⟩ := Program.operandsAt_test test hstart h.left hright.head
      obtain ⟨hend, hbody⟩ := Block.level body hright.tail hinside
      rw [Stmt.size, ← Nat.add_assoc, ← Nat.add_assoc]
      refine ⟨hend, ((test.level h.left).trans (.single hright.head ⟨?_, by simp⟩)).trans hbody⟩
      rintro target ⟨⟩
      exact ⟨htest, hend⟩
  | .loop test body =>
      rw [Stmt.code] at h
      have hright := h.right
      rw [test.length_code] at hright
      obtain ⟨htest, hinside⟩ := Program.operandsAt_test test hstart h.left hright.head
      obtain ⟨hend, hbody⟩ := Block.level body hright.tail.left hinside
      have hback := hright.tail.right
      rw [Block.length_code] at hback
      -- behind the body a zero is pushed for the jump back, which takes it
      have hpush : program.operandsAt (start + test.size + 1 + Block.size body + 1) = 1 := by
        rw [Program.operandsAt_succ hback.head, hend]
        rfl
      have hafter : program.operandsAt (start + test.size + 1 + Block.size body + 1 + 1) = 0 := by
        rw [Program.operandsAt_succ hback.tail.head, hpush]
        rfl
      have hout : program.Each program.Level (start + test.size) (start + test.size + 1) := by
        refine .single hright.head ⟨?_, by simp⟩
        rintro target ⟨⟩
        exact ⟨htest, hafter⟩
      have hagain : program.Each program.Level (start + test.size + 1 + Block.size body)
          (start + test.size + 1 + Block.size body + 1 + 1) := by
        refine .trans (.single hback.head ⟨by simp, by simp⟩)
          (.single hback.tail.head ⟨?_, by simp⟩)
        rintro target ⟨⟩
        exact ⟨Nat.le_of_eq hpush, hstart⟩
      rw [Stmt.size, ← Nat.add_assoc, ← Nat.add_assoc, ← Nat.add_assoc]
      exact ⟨hafter, (((test.level h.left).trans hout).trans hbody).trans hagain⟩
  | .assign target value =>
      rw [Stmt.code] at h
      have hvalue := value.operands_le h.left
      have hstore := h.right
      rw [value.length_code] at hstore
      have hafter := Program.operandsAt_succ hstore.head
      rw [Stmt.size, ← Nat.add_assoc]
      refine ⟨?_, (value.level h.left).trans (.single hstore.head ?_)⟩
      · rw [hafter]
        cases target <;> simp only [Place.store, Instruction.operandsAfter, Instruction.takes,
          Instruction.gives, reduceCtorEq, if_false] <;> split at hvalue <;> omega
      · cases target <;> exact ⟨by simp [Place.store], by simp [Place.store]⟩
  | .evaluate term =>
      rw [Stmt.code] at h
      have hterm := term.operands_le h.left
      have hlevel := term.level h.left
      rw [Stmt.size]
      by_cases hcall : term.isCall
      · simp only [hcall, if_true, Nat.add_zero] at hterm ⊢
        exact ⟨by omega, hlevel⟩
      · simp only [hcall] at h hterm ⊢
        have hpop := h.right
        rw [term.length_code] at hpop
        have hafter := Program.operandsAt_succ hpop.head
        refine ⟨?_, hlevel.trans (.single hpop.head ⟨by simp, by simp⟩)⟩
        simp only [← Nat.add_assoc, hafter, Instruction.operandsAfter, Instruction.takes,
          Instruction.gives, reduceCtorEq, if_false]
        simp only [Bool.false_eq_true, if_false] at hterm
        omega

/-- A block that starts without operands ends without operands, and its jumps and returns are
level. -/
theorem Block.level (block : Block) {start : Nat}
    (h : program.Holds start (Block.code start block)) (hstart : program.operandsAt start = 0) :
    program.operandsAt (start + Block.size block) = 0 ∧
      program.Each program.Level start (start + Block.size block) := by
  match block with
  | [] => exact ⟨hstart, .refl start⟩
  | first :: rest =>
      rw [Block.code] at h
      obtain ⟨hmiddle, hfirst⟩ := first.level h.left hstart
      have hright := h.right
      rw [first.length_code] at hright
      obtain ⟨hend, hrest⟩ := Block.level rest hright hmiddle
      rw [Block.size, ← Nat.add_assoc]
      exact ⟨hend, hfirst.trans hrest⟩

end

end Statements

/-! ## Programs -/

/-- Every position of a row of bodies is in one of them. -/
theorem Laid.exists_body {start stop position : Nat} {bodies : List Compiled}
    (h : Laid start bodies stop) (hstart : start ≤ position) (hstop : position < stop) :
    ∃ compiled ∈ bodies, compiled.func.entry ≤ position ∧ position ≤ compiled.last := by
  induction bodies generalizing start with
  | nil =>
      obtain rfl : start = stop := h
      omega
  | cons first rest ih =>
      obtain ⟨rfl, hrest⟩ := h
      by_cases hfirst : position ≤ first.last
      · exact ⟨first, List.mem_cons_self, hstart, hfirst⟩
      · obtain ⟨compiled, hmem, hbounds⟩ := ih hrest (by omega)
        exact ⟨compiled, List.mem_cons_of_mem _ hmem, hbounds⟩

namespace Program.Layout

variable {program : Program ν} {bodies : List Compiled} {main : Block} {compiled : Compiled}

/-- Bodies end with returns, so each of them starts without operands, and so does the top-level
code. -/
theorem operandsAt_of_laid (h : program.Layout bodies main) {start : Nat} {rest : List Compiled}
    (hrest : Laid start rest program.entry) (hmem : ∀ compiled ∈ rest, compiled ∈ bodies)
    (hstart : program.operandsAt start = 0) :
    (∀ compiled ∈ rest, program.operandsAt compiled.func.entry = 0) ∧
      program.operandsAt program.entry = 0 := by
  induction rest generalizing start with
  | nil =>
      obtain rfl : start = program.entry := hrest
      exact ⟨by simp, hstart⟩
  | cons first rest ih =>
      obtain ⟨rfl, hothers⟩ := hrest
      have hlast := h.code_last (hmem first List.mem_cons_self)
      obtain ⟨hentries, hmain⟩ := ih hothers
        (fun compiled hcompiled => hmem compiled (List.mem_cons_of_mem _ hcompiled))
        (Program.operandsAt_succ hlast)
      refine ⟨?_, hmain⟩
      intro compiled hcompiled
      rcases List.mem_cons.1 hcompiled with rfl | hcompiled
      · exact hstart
      · exact hentries compiled hcompiled

theorem operandsAt_entry (h : program.Layout bodies main) (hmem : compiled ∈ bodies) :
    program.operandsAt compiled.func.entry = 0 :=
  (h.operandsAt_of_laid h.laid (fun _ hcompiled => hcompiled) operandsAt_zero).1 compiled hmem

theorem operandsAt_main (h : program.Layout bodies main) :
    program.operandsAt program.entry = 0 :=
  (h.operandsAt_of_laid h.laid (fun _ hcompiled => hcompiled) operandsAt_zero).2

/-- What holds of all instructions of the bodies, of the returns that end them and of the top-level
code holds of all instructions. -/
theorem each (h : program.Layout bodies main) {Holds : Nat → Instruction → Prop}
    (hbody : ∀ compiled ∈ bodies, program.Each Holds compiled.func.entry compiled.last)
    (hlast : ∀ compiled ∈ bodies, Holds compiled.last .ret)
    (hmain : program.Each Holds program.entry (program.entry + Block.size main)) {position : Nat}
    {instruction : Instruction} (hcode : program.code[position]? = some instruction) :
    Holds position instruction := by
  by_cases hentry : position < program.entry
  · obtain ⟨compiled, hmem, hstart, hle⟩ := h.laid.exists_body (Nat.zero_le _) hentry
    rcases Nat.lt_or_eq_of_le hle with hlt | rfl
    · exact hbody compiled hmem position instruction hstart hlt hcode
    · rw [h.code_last hmem] at hcode
      cases hcode
      exact hlast compiled hmem
  · have hlt := (Array.getElem?_eq_some_iff.1 hcode).1
    rw [h.size_code] at hlt
    exact hmain position instruction (Nat.le_of_not_lt hentry) hlt hcode

/-- Every instruction of a compiled program is level. -/
theorem level (h : program.Layout bodies main) {position : Nat} {instruction : Instruction}
    (hcode : program.code[position]? = some instruction) : program.Level position instruction := by
  have hbody := fun compiled (hmem : compiled ∈ bodies) =>
    Block.level compiled.body (h.holds_body hmem).left (h.operandsAt_entry hmem)
  refine h.each (fun compiled hmem => (hbody compiled hmem).2) ?_
    (Block.level main h.holds_main h.operandsAt_main).2 hcode
  intro compiled hmem
  exact ⟨by simp, fun _ => (hbody compiled hmem).1⟩

end Program.Layout

/-! ## Instructions -/

namespace Machine

variable [Host ν] {program : Program ν} {machine machine' : Machine ν} {instruction : Instruction}

/-- An instruction that keeps the frames takes and gives its operands. What is below them stays, but
for the slot that the instruction may set. -/
theorem Moves.stack (h : Moves program machine instruction machine')
    (hframes : machine'.frames = machine.frames) :
    instruction.takes ≤ machine.stack.size ∧
      machine'.stack.size = machine.stack.size - instruction.takes + instruction.gives ∧
      ∀ index, index < machine.stack.size - instruction.takes →
        machine'.stack[index]? = machine.stack[index]? ∨
          ∃ frame frames slot value, machine.frames = frame :: frames ∧
            instruction = .setLocal slot value.tag ∧ index = frame.base + slot ∧
            machine'.stack[index]? = some value := by
  cases h with
  | load loads room =>
      have htakes : instruction.takes = 0 := by cases loads <;> rfl
      have hgives : instruction.gives = 1 := by cases loads <;> rfl
      rw [htakes, hgives]
      refine ⟨Nat.zero_le _, by simp, ?_⟩
      intro index hindex
      exact .inl ((Array.getElem?_push_lt hindex).trans (Array.getElem?_eq_getElem hindex).symm)
  | assignGlobal top known cell =>
      have hpos := size_pos_of_back? top
      refine ⟨hpos, by simp [Instruction.takes, Instruction.gives], ?_⟩
      intro index hindex
      exact .inl (getElem?_pop_of_lt hindex)
  | @setLocal slot frame frames old value top active held type =>
      have hpos := size_pos_of_back? top
      refine ⟨hpos, by simp [Instruction.takes, Instruction.gives], ?_⟩
      intro index hindex
      have hlt : index < machine.stack.pop.size := by simpa [Instruction.takes] using hindex
      by_cases hslot : index = frame.base + slot
      · subst hslot
        refine .inr ⟨frame, frames, slot, value, active, rfl, rfl, ?_⟩
        simp only [Array.getElem?_setIfInBounds, if_pos, hlt]
      · refine .inl ?_
        simp only [Array.getElem?_setIfInBounds, if_neg (Ne.symm hslot)]
        exact getElem?_pop_of_lt hindex
  | binary top below apply =>
      have hpos := size_pos_of_back? below
      simp only [Array.size_pop] at hpos
      refine ⟨by simp only [Instruction.takes]; omega, ?_, ?_⟩
      · simp only [Array.size_push, Array.size_pop, Instruction.takes, Instruction.gives]
        omega
      · intro index hindex
        simp only [Instruction.takes] at hindex
        have hlt : index < machine.stack.pop.pop.size := by
          simp only [Array.size_pop]
          omega
        refine .inl ?_
        rw [Array.getElem?_push_lt hlt, ← Array.getElem?_eq_getElem hlt,
          getElem?_pop_of_lt (by simp only [Array.size_pop]; omega),
          getElem?_pop_of_lt (by omega)]
  | pop top | jumpIfZero top =>
      have hpos := size_pos_of_back? top
      refine ⟨hpos, by simp [Instruction.takes, Instruction.gives], ?_⟩
      intro index hindex
      exact .inl (getElem?_pop_of_lt hindex)
  | builtin callee proceeds =>
      have hlt := (callee?_eq_some callee).1
      refine ⟨hlt, by simp [Instruction.takes, Instruction.gives], ?_⟩
      intro index hindex
      exact .inl (getElem?_take_of_lt hindex)
  | function => exact absurd hframes.symm length_ne_of_frames
  | ret active => exact absurd (hframes.trans active) length_ne_of_frames

/-- What is below the running function stays. -/
theorem Moves.stack_below (h : Moves program machine instruction machine')
    (hframes : machine'.frames = machine.frames) {frame : Frame} {frames : List Frame}
    (hactive : machine.frames = frame :: frames) {index : Nat} (hbase : index < frame.base)
    (hindex : index < machine.stack.size - instruction.takes) :
    machine'.stack[index]? = machine.stack[index]? := by
  obtain ⟨-, -, hkeeps⟩ := h.stack hframes
  rcases hkeeps index hindex with hkept | ⟨frame', frames', slot, value, hactive', -, hslot, -⟩
  · exact hkept
  · obtain ⟨rfl, rfl⟩ := List.cons.inj (hactive.symm.trans hactive')
    omega

/-- An instruction that fails leaves what is below its operands. -/
theorem Fails.stack_below {fault : Fault} (h : Fails program machine instruction fault machine')
    {index : Nat} (hindex : index < machine.stack.size - instruction.takes) :
    machine'.stack[index]? = machine.stack[index]? := by
  have hpopped : index < machine.stack.size - 1 →
      machine.popped.stack[index]? = machine.stack[index]? := getElem?_pop_of_lt
  cases h with
  | full | empty | loadUnresolved | loadNoFrame | loadOutOfRange | loadMismatch | calleeMissing
  | notInvocable | arity | argument | tooDeep | outside => rfl
  | assignUnresolved | setNoFrame | setOutOfRange | setHeldMismatch | setNewMismatch
  | testMismatch => exact hpopped hindex
  | rightMismatch | leftMissing =>
      simp only [Instruction.takes] at hindex
      exact hpopped (by omega)
  | leftMismatch | divisionByZero | resultFull =>
      simp only [Instruction.takes] at hindex
      have hlt : index < machine.popped.stack.size - 1 := by
        simp only [popped, Array.size_pop]
        omega
      exact (getElem?_pop_of_lt hlt).trans (hpopped (by omega))
  | native => exact getElem?_take_of_lt hindex
  | @localsFull arguments =>
      have hplace : index < machine.calleePlace arguments := hindex
      have hlt := hplace
      rw [← size_stack_take_calleePlace machine arguments] at hlt
      rw [Array.getElem?_append_left hlt, getElem?_take_of_lt hplace]

/-- Whatever stops a machine, what is below the operands of the instruction stays. -/
theorem stack_below_of_stopped {outcome : Outcome}
    (hstep : machine.step program = .stopped outcome machine') {index : Nat}
    (hindex : ∀ instruction, program.code[machine.pc]? = some instruction →
      index < machine.stack.size - instruction.takes) :
    machine'.stack[index]? = machine.stack[index]? := by
  cases outcome with
  | completed =>
      obtain ⟨-, rfl⟩ := completed_of_step hstep
      rfl
  | halted name =>
      obtain ⟨instruction, hcode, hhalts⟩ := halts_of_step hstep
      cases hhalts with
      | builtin callee halts => exact getElem?_take_of_lt (hindex _ hcode)
  | failed error =>
      obtain ⟨-, instruction, hcode, hfails⟩ := fails_of_step hstep
      exact hfails.stack_below (hindex _ hcode)

/-- Behind such an instruction the operands are counted on. -/
theorem Moves.operandsAt_pc (h : Moves program machine instruction machine')
    (hframes : machine'.frames = machine.frames)
    (hcode : program.code[machine.pc]? = some instruction)
    (hlevel : program.Level machine.pc instruction) :
    program.operandsAt machine'.pc =
      program.operandsAt machine.pc - instruction.takes + instruction.gives := by
  have hnext : instruction ≠ .ret → program.operandsAt (machine.pc + 1) =
      program.operandsAt machine.pc - instruction.takes + instruction.gives := by
    intro hret
    rw [Program.operandsAt_succ hcode, Instruction.operandsAfter, if_neg hret]
  cases h with
  | load loads => exact hnext (by cases loads <;> simp)
  | assignGlobal | setLocal | binary | pop | builtin => exact hnext (by simp)
  | jumpIfZero top =>
      obtain ⟨hle, htarget⟩ := hlevel.1 _ rfl
      dsimp only
      split
      · rw [htarget]
        simp only [Instruction.takes, Instruction.gives]
        omega
      · exact hnext (by simp)
  | function => exact absurd hframes.symm length_ne_of_frames
  | ret active => exact absurd (hframes.trans active) length_ne_of_frames

end Machine

end StackScript
