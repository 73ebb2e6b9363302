import StackScript.Proofs.ControlFlow

/-!
# How high the operand stack gets

A call leaves no value, so an expression can leave fewer values than the code after it takes. What
holds is an upper bound: every instruction of a block has a height, counted from the bottom of a
block's stack, that no run exceeds. At the start of a statement the bound is zero.
-/

namespace StackScript

variable {ν : Type}

/-- The most values an instruction can leave on a stack of a given height. -/
def Instruction.leaves : Instruction → (height : Nat) → Nat
  | .push _, height | .loadGlobal _, height | .loadLocal _ _, height => height + 1
  | .assignGlobal _, height | .setLocal _ _, height | .binary _, height
  | .jumpIfZero _, height | .pop, height => height - 1
  | .invoke arguments, height => height - (arguments + 1)
  | .ret, _ => 0

theorem Instruction.leaves_mono (instruction : Instruction) {height height' : Nat}
    (h : height ≤ height') : instruction.leaves height ≤ instruction.leaves height' := by
  cases instruction <;> simp only [leaves] <;> omega

/-! ## Heights of trees -/

namespace Expr

mutual

/-- The heights before each instruction of an expression that starts at a given height. -/
def heights (height : Nat) : Expr → List Nat
  | .literal _ | .variable _ => [height]
  | .call callee arguments =>
      callee.heights height ++
        (heightsAll (height + 1) arguments ++ [height + 1 + arguments.length])
  | .binary left _ right => left.heights height ++ (right.heights (height + 1) ++ [height + 2])

/-- The heights before each instruction of expressions, each one higher than the one before. -/
def heightsAll (height : Nat) : List Expr → List Nat
  | [] => []
  | first :: rest => first.heights height ++ heightsAll (height + 1) rest

end

mutual

theorem length_heights : ∀ (expression : Expr) (height : Nat),
    (expression.heights height).length = expression.size
  | .literal _, _ | .variable _, _ => rfl
  | .call callee arguments, height => by
      simp [heights, size, length_heights callee, length_heightsAll arguments]
  | .binary left _ right, height => by
      simp [heights, size, length_heights left, length_heights right]

theorem length_heightsAll : ∀ (list : List Expr) (height : Nat),
    (heightsAll height list).length = sizeAll list
  | [], _ => rfl
  | first :: rest, height => by
      simp [heightsAll, sizeAll, length_heights first, length_heightsAll rest]

end

theorem headD_heights : ∀ (expression : Expr) (height : Nat) (rest : List Nat) (after : Nat),
    (expression.heights height ++ rest).headD after = height
  | .literal _, _, _, _ | .variable _, _, _, _ => rfl
  | .call callee arguments, height, rest, after => by
      rw [heights, List.append_assoc]
      exact headD_heights callee height _ after
  | .binary left _ right, height, rest, after => by
      rw [heights, List.append_assoc]
      exact headD_heights left height _ after

theorem headD_heightsAll (list : List Expr) (height after : Nat) (rest : List Nat)
    (hrest : rest.headD after = height + list.length) :
    (heightsAll height list ++ rest).headD after = height := by
  cases list with
  | nil => exact hrest
  | cons first others =>
      rw [heightsAll, List.append_assoc]
      exact headD_heights first height _ after

end Expr

mutual

/-- The heights before each instruction of a statement. -/
def Stmt.heights : Stmt → List Nat
  | .skip | .declare _ _ => []
  | .ret => [0]
  | .branch test body => test.heights 0 ++ 1 :: Block.heights body
  | .loop test body => test.heights 0 ++ 1 :: (Block.heights body ++ [0, 1])
  | .assign _ value => value.heights 0 ++ [1]
  | .evaluate term => term.heights 0 ++ if term.isCall then [] else [1]

/-- The heights before each instruction of a block. -/
def Block.heights : Block → List Nat
  | [] => []
  | first :: rest => first.heights ++ Block.heights rest

end

mutual

theorem Stmt.length_heights : ∀ statement : Stmt, statement.heights.length = statement.size
  | .skip | .declare _ _ | .ret => rfl
  | .branch test body => by
      simp [Stmt.heights, Stmt.size, Expr.length_heights, Block.length_heights body]
      omega
  | .loop test body => by
      simp [Stmt.heights, Stmt.size, Expr.length_heights, Block.length_heights body]
      omega
  | .assign _ value => by simp [Stmt.heights, Stmt.size, Expr.length_heights]
  | .evaluate term => by
      cases h : term.isCall <;> simp [Stmt.heights, Stmt.size, Expr.length_heights, h]

theorem Block.length_heights : ∀ block : Block, (Block.heights block).length = Block.size block
  | [] => rfl
  | first :: rest => by
      simp [Block.heights, Block.size, Stmt.length_heights first, Block.length_heights rest]

end

theorem Stmt.headD_heights (statement : Stmt) (rest : List Nat) (hrest : rest.headD 0 = 0) :
    (statement.heights ++ rest).headD 0 = 0 := by
  cases statement with
  | skip | declare => exact hrest
  | ret => rfl
  | branch test body | loop test body =>
      rw [Stmt.heights, List.append_assoc]
      exact Expr.headD_heights test 0 _ 0
  | assign target value =>
      rw [Stmt.heights, List.append_assoc]
      exact Expr.headD_heights value 0 _ 0
  | evaluate term =>
      rw [Stmt.heights, List.append_assoc]
      exact Expr.headD_heights term 0 _ 0

theorem Block.headD_heights (block : Block) (rest : List Nat) (hrest : rest.headD 0 = 0) :
    (Block.heights block ++ rest).headD 0 = 0 := by
  induction block with
  | nil => exact hrest
  | cons first others ih =>
      rw [Block.heights, List.append_assoc]
      exact first.headD_heights _ ih

/-! ## Heights bound the code -/

/-- Every instruction leaves at most as much as the height of the one that follows, the last one
at most `after`, and jumps are no higher than their operand. -/
def Bounded : List Instruction → List Nat → (after : Nat) → Prop
  | [], [], _ => True
  | instruction :: code, height :: heights, after =>
      instruction.leaves height ≤ heights.headD after ∧
      (∀ target, instruction = .jumpIfZero target → height ≤ 1) ∧ Bounded code heights after
  | _, _, _ => False

namespace Bounded

variable {code code' : List Instruction} {heights heights' : List Nat} {after after' : Nat}

theorem mono (h : Bounded code heights after) (hle : after ≤ after') :
    Bounded code heights after' := by
  induction code generalizing heights with
  | nil =>
      cases heights with
      | nil => trivial
      | cons height heights => exact h.elim
  | cons instruction code ih =>
      cases heights with
      | nil => exact h.elim
      | cons height heights =>
          obtain ⟨hleaves, hjump, hrest⟩ := h
          refine ⟨?_, hjump, ih hrest⟩
          cases heights with
          | nil => exact Nat.le_trans hleaves hle
          | cons next heights => exact hleaves

theorem append (h : Bounded code heights (heights'.headD after))
    (h' : Bounded code' heights' after) :
    Bounded (code ++ code') (heights ++ heights') after := by
  induction code generalizing heights with
  | nil =>
      cases heights with
      | nil => exact h'
      | cons height heights => exact h.elim
  | cons instruction code ih =>
      cases heights with
      | nil => exact h.elim
      | cons height heights =>
          obtain ⟨hleaves, hjump, hrest⟩ := h
          refine ⟨?_, hjump, ih hrest⟩
          cases heights with
          | nil => exact hleaves
          | cons next heights => exact hleaves

theorem single {instruction : Instruction} {height : Nat}
    (hleaves : instruction.leaves height ≤ after)
    (hjump : ∀ target, instruction = .jumpIfZero target → height ≤ 1) :
    Bounded [instruction] [height] after :=
  ⟨hleaves, hjump, trivial⟩

/-- What the bound says about one instruction. -/
theorem getElem? (h : Bounded code heights 0) {index : Nat} {instruction : Instruction}
    (hcode : code[index]? = some instruction) :
    instruction.leaves (heights.getD index 0) ≤ heights.getD (index + 1) 0 ∧
      ∀ target, instruction = .jumpIfZero target → heights.getD index 0 ≤ 1 := by
  induction index generalizing code heights with
  | zero =>
      match code, heights with
      | [], [] => cases hcode
      | first :: code, height :: heights =>
          cases hcode
          refine ⟨?_, h.2.1⟩
          have hleaves := h.1
          cases heights <;> exact hleaves
  | succ index ih =>
      match code, heights with
      | [], [] => cases hcode
      | first :: code, height :: heights => exact ih h.2.2 hcode

end Bounded

namespace Expr

/-- The most values on the stack after an expression that starts at a given height. -/
def top (height : Nat) (expression : Expr) : Nat :=
  if expression.isCall then height else height + 1

theorem top_le (height : Nat) (expression : Expr) : expression.top height ≤ height + 1 := by
  unfold top
  split <;> omega

mutual

theorem bounded : ∀ (expression : Expr) (height : Nat),
    Bounded expression.code (expression.heights height) (expression.top height)
  | .literal _, height => .single (Nat.le_refl _) (by simp)
  | .variable place, height => by
      cases place <;> exact .single (Nat.le_refl _) (by simp [Place.load])
  | .call callee arguments, height => by
      have hinvoke : Bounded [.invoke arguments.length] [height + 1 + arguments.length] height :=
        .single (by simp only [Instruction.leaves]; omega) (by simp)
      have harguments := boundedAll arguments (height + 1)
      refine .append ((bounded callee height).mono ?_) (.append harguments hinvoke)
      rw [headD_heightsAll _ _ _ _ rfl]
      exact callee.top_le height
  | .binary left operator right, height => by
      have hbinary : Bounded [.binary operator] [height + 2] (height + 1) :=
        .single (by simp [Instruction.leaves]) (by simp)
      have hright := (bounded right (height + 1)).mono (right.top_le (height + 1))
      refine .append ((bounded left height).mono ?_) (.append hright hbinary)
      rw [headD_heights]
      exact left.top_le height

theorem boundedAll : ∀ (list : List Expr) (height : Nat),
    Bounded (codeAll list) (heightsAll height list) (height + list.length)
  | [], _ => trivial
  | first :: rest, height => by
      have hrest := boundedAll rest (height + 1)
      rw [List.length_cons, ← Nat.add_assoc, Nat.add_right_comm]
      refine .append ((bounded first height).mono ?_) hrest
      have hnext :
          (heightsAll (height + 1) rest).headD (height + 1 + rest.length) = height + 1 := by
        simpa using headD_heightsAll rest (height + 1) _ [] rfl
      rw [hnext]
      exact first.top_le height

end

end Expr

mutual

theorem Stmt.bounded : ∀ (statement : Stmt) (start : Nat),
    Bounded (statement.code start) statement.heights 0
  | .skip, _ | .declare _ _, _ => trivial
  | .ret, _ => .single (Nat.le_refl _) (by simp)
  | .branch test body, start => by
      have htest := (test.bounded 0).mono (test.top_le 0)
      refine .append htest ⟨?_, by simp, Block.bounded body _⟩
      exact Nat.zero_le _
  | .loop test body, start => by
      have htest := (test.bounded 0).mono (test.top_le 0)
      have hback : Bounded [.push (.int 0), .jumpIfZero start] [0, 1] 0 :=
        ⟨Nat.le_refl _, by simp, .single (Nat.le_refl _) (by simp)⟩
      refine .append htest ⟨?_, by simp, .append (Block.bounded body _) hback⟩
      exact Nat.zero_le _
  | .assign target value, _ => by
      have hvalue := (value.bounded 0).mono (value.top_le 0)
      refine .append hvalue ?_
      cases target <;> exact .single (Nat.le_refl _) (by simp [Place.store])
  | .evaluate term, _ => by
      have hterm := term.bounded 0
      unfold Stmt.code Stmt.heights
      unfold Expr.top at hterm
      split
      next hcall =>
        rw [if_pos hcall] at hterm
        exact .append hterm trivial
      next hcall =>
        rw [if_neg hcall] at hterm
        exact .append hterm (.single (Nat.le_refl _) (by simp))

/-- The heights of a block bound its code wherever it is placed, and nothing is left after it. -/
theorem Block.bounded : ∀ (block : Block) (start : Nat),
    Bounded (Block.code start block) (Block.heights block) 0
  | [], _ => trivial
  | first :: rest, start => by
      have hrest := Block.bounded rest (start + first.size)
      have hnext : (Block.heights rest).headD 0 = 0 := by
        simpa using Block.headD_heights rest [] rfl
      refine .append ?_ hrest
      rw [hnext]
      exact first.bounded start

end

/-! ## Starts of statements -/

mutual

/-- The positions where a statement and the statements in it start. -/
def Stmt.starts (start : Nat) : Stmt → List Nat
  | .branch test body | .loop test body => start :: Block.starts (start + test.size + 1) body
  | .skip | .ret | .declare _ _ | .assign _ _ | .evaluate _ => [start]

/-- The positions where the statements of a block and the statements in them start. -/
def Block.starts (start : Nat) : Block → List Nat
  | [] => []
  | first :: rest => first.starts start ++ Block.starts (start + first.size) rest

end

/-- A zero of the heights after a front is one of all heights. -/
theorem getD_append_eq_zero {front back : List Nat} {start position : Nat}
    (hle : start + front.length ≤ position)
    (hzero : back.getD (position - (start + front.length)) 0 = 0) :
    start ≤ position ∧ (front ++ back).getD (position - start) 0 = 0 := by
  refine ⟨by omega, ?_⟩
  rw [List.getD_eq_getElem?_getD, List.getElem?_append_right (by omega), Nat.sub_sub,
    ← List.getD_eq_getElem?_getD]
  exact hzero

theorem Stmt.getD_heights_start (statement : Stmt) (start : Nat) {rest : List Nat}
    (hrest : rest.headD 0 = 0) :
    start ≤ start ∧ (statement.heights ++ rest).getD (start - start) 0 = 0 := by
  refine ⟨Nat.le_refl _, ?_⟩
  have hhead := statement.headD_heights rest hrest
  rw [Nat.sub_self]
  cases hlist : statement.heights ++ rest with
  | nil => rfl
  | cons height heights =>
      rw [hlist] at hhead
      exact hhead

mutual

theorem Stmt.getD_heights_of_mem_starts : ∀ (statement : Stmt) (start : Nat) (rest : List Nat),
    rest.headD 0 = 0 → ∀ position ∈ statement.starts start,
      start ≤ position ∧ (statement.heights ++ rest).getD (position - start) 0 = 0
  | .branch test body, start, rest, hrest, position, h => by
      rcases List.mem_cons.1 h with rfl | h
      · exact Stmt.getD_heights_start _ _ hrest
      · have hbody := Block.getD_heights_of_mem_starts body _ rest hrest position h
        have hfront : (test.heights 0 ++ [1]).length = test.size + 1 := by
          simp [Expr.length_heights]
        have hlist : (Stmt.branch test body).heights ++ rest =
            (test.heights 0 ++ [1]) ++ (Block.heights body ++ rest) := by simp [Stmt.heights]
        rw [hlist]
        rw [Nat.add_assoc, ← hfront] at hbody
        exact getD_append_eq_zero hbody.1 hbody.2
  | .loop test body, start, rest, hrest, position, h => by
      rcases List.mem_cons.1 h with rfl | h
      · exact Stmt.getD_heights_start _ _ hrest
      · -- right behind the body is the jump back, at height zero
        have hbody := Block.getD_heights_of_mem_starts body _ (0 :: 1 :: rest) rfl position h
        have hfront : (test.heights 0 ++ [1]).length = test.size + 1 := by
          simp [Expr.length_heights]
        have hlist : (Stmt.loop test body).heights ++ rest =
            (test.heights 0 ++ [1]) ++ (Block.heights body ++ 0 :: 1 :: rest) := by
          simp [Stmt.heights]
        rw [hlist]
        rw [Nat.add_assoc, ← hfront] at hbody
        exact getD_append_eq_zero hbody.1 hbody.2
  | .skip, start, rest, hrest, position, h | .ret, start, rest, hrest, position, h
  | .declare _ _, start, rest, hrest, position, h | .assign _ _, start, rest, hrest, position, h
  | .evaluate _, start, rest, hrest, position, h => by
      obtain rfl := List.mem_singleton.1 h
      exact Stmt.getD_heights_start _ _ hrest

/-- Where a statement starts, the height is zero. -/
theorem Block.getD_heights_of_mem_starts : ∀ (block : Block) (start : Nat) (rest : List Nat),
    rest.headD 0 = 0 → ∀ position ∈ Block.starts start block,
      start ≤ position ∧ (Block.heights block ++ rest).getD (position - start) 0 = 0
  | [], _, _, _, _, h => by cases h
  | first :: others, start, rest, hrest, position, h => by
      rw [Block.heights, List.append_assoc]
      rcases List.mem_append.1 h with h | h
      · have hnext := Block.headD_heights others rest hrest
        exact first.getD_heights_of_mem_starts start _ hnext position h
      · have hothers := Block.getD_heights_of_mem_starts others _ rest hrest position h
        rw [← first.length_heights] at hothers
        exact getD_append_eq_zero hothers.1 hothers.2

end

/-! ## Heights bound runs -/

namespace Machine

variable {program : Program ν} {bodies : List Compiled} {main : Block}
  {machine machine' : Machine ν}

/-- The most operands of the top-level code before the instruction at a position. -/
def heightAt (program : Program ν) (main : Block) (position : Nat) : Nat :=
  (Block.heights main).getD (position - program.entry) 0

theorem heightAt_eq_zero (h : program.Layout bodies main) {position : Nat}
    (hposition : position ∈ Block.starts program.entry main ∨ position = program.code.size) :
    heightAt program main position = 0 := by
  rcases hposition with hstart | rfl
  · have hzero := Block.getD_heights_of_mem_starts main program.entry [] rfl position hstart
    simpa [heightAt] using hzero.2
  · rw [heightAt, h.size_code, Nat.add_sub_cancel_left, ← Block.length_heights]
    simp

/-- The operands of the top-level code keep to their bound: all that is on the stack while no call
is active, and what is below the outermost call otherwise. -/
structure Low (program : Program ν) (main : Block) (machine : Machine ν) : Prop where
  operands : machine.frames = [] → machine.stack.size ≤ heightAt program main machine.pc
  outermost : ∀ frame, machine.frames.getLast? = some frame →
    frame.base ≤ heightAt program main frame.resume

/-- The calls of a machine are nested and the operands of the top-level code keep to their bound. -/
def Bound (program : Program ν) (main : Block) (machine : Machine ν) : Prop :=
  machine.Low program main ∧ ∃ calls, machine.Sound program calls

/-- At the start of a statement of the top-level code, and at its end, nothing is on the stack. -/
theorem empty_of_bound (h : program.Layout bodies main) (hbound : machine.Bound program main)
    (hframes : machine.frames = [])
    (hpc : machine.pc ∈ Block.starts program.entry main ∨ machine.pc = program.code.size) :
    machine.stack = #[] := by
  have hsize := hbound.1.operands hframes
  rw [heightAt_eq_zero h hpc] at hsize
  exact Array.eq_empty_of_size_eq_zero (Nat.le_zero.1 hsize)

variable [Host ν]

/-- In the top-level code, what an instruction leaves fits under the bound of the next one. -/
theorem Low.moves_main (h : program.Layout bodies main) {instruction : Instruction}
    (hframes : machine.frames = []) (hentry : program.entry ≤ machine.pc)
    (hcode : program.code[machine.pc]? = some instruction) (hlow : machine.Low program main)
    (hmoves : Moves program machine instruction machine') : machine'.Low program main := by
  obtain ⟨hleaves, hjump⟩ :=
    (Block.bounded main program.entry).getElem? (h.getElem?_main hentry hcode)
  have hnext : ∀ size, size ≤ instruction.leaves machine.stack.size →
      size ≤ heightAt program main (machine.pc + 1) := by
    intro size hsize
    have hmono := instruction.leaves_mono (hlow.operands hframes)
    rw [heightAt, Nat.sub_add_comm hentry]
    exact Nat.le_trans hsize (Nat.le_trans hmono hleaves)
  cases hmoves with
  | load loads room =>
      refine ⟨fun _ => hnext _ ?_, hlow.outermost⟩
      cases loads <;> simp [Instruction.leaves]
  | assignGlobal | pop => exact ⟨fun _ => hnext _ (by simp [Instruction.leaves]), hlow.outermost⟩
  | setLocal top active => simp [hframes] at active
  | binary top below apply =>
      refine ⟨fun _ => hnext _ ?_, hlow.outermost⟩
      have hpos := size_pos_of_back? below
      simp only [Array.size_pop, Array.size_push, Instruction.leaves] at hpos ⊢
      omega
  | jumpIfZero top =>
      refine ⟨fun _ => ?_, hlow.outermost⟩
      have hsize := Nat.le_trans (hlow.operands hframes) (hjump _ rfl)
      simp only [Array.size_pop]
      omega
  | builtin callee proceeds =>
      refine ⟨fun _ => hnext _ ?_, hlow.outermost⟩
      simp [Instruction.leaves]
  | function callee accepts depth =>
      refine ⟨by simp, fun frame hframe => ?_⟩
      rw [hframes] at hframe
      cases hframe
      exact hnext _ (Nat.le_refl _)
  | ret active => simp [hframes] at active

/-- While calls are active, the operands below the outermost one stay as they are. -/
theorem Low.moves_call {instruction : Instruction} (hframes : machine.frames ≠ [])
    (hlow : machine.Low program main) (hmoves : Moves program machine instruction machine') :
    machine'.Low program main := by
  have hout := hlow.outermost
  cases hmoves with
  | load | assignGlobal | setLocal | binary | pop | jumpIfZero | builtin =>
      exact ⟨fun hnone => absurd hnone hframes, hout⟩
  | function callee accepts depth =>
      refine ⟨by simp, fun frame hframe => hout frame ?_⟩
      rwa [List.getLast?_cons_of_ne_nil hframes] at hframe
  | @ret frame frames active =>
      rw [active] at hout
      refine ⟨?_, fun other hother => hout other ?_⟩
      · -- the outermost call returns and cuts the stack down to its base
        rintro rfl
        have hbase : frame.base ≤ heightAt program main frame.resume := hout frame rfl
        simp only [Array.take_eq_extract, Array.size_extract]
        omega
      · have hne : frames ≠ [] := by
          rintro rfl
          cases hother
        rwa [List.getLast?_cons_of_ne_nil hne]

/-- A step that goes on keeps the operands of the top-level code under their bound. -/
theorem Low.step (h : program.Layout bodies main) {calls : List Func}
    (hsound : machine.Sound program calls) (hlow : machine.Low program main)
    (hstep : machine.step program = .running machine') : machine'.Low program main := by
  obtain ⟨instruction, hcode, hmoves⟩ := moves_of_step hstep
  by_cases hframes : machine.frames = []
  · have hentry := (hsound.nested.frames_eq_nil_iff.1 hframes).1
    exact hlow.moves_main h hframes hentry hcode hmoves
  · exact hlow.moves_call hframes hmoves

/-- An instruction that fails on an empty stack leaves it empty. -/
theorem Fails.empty_stack {instruction : Instruction} {fault : Fault}
    (h : Fails program machine instruction fault machine') (hempty : machine.stack = #[]) :
    machine'.stack = #[] := by
  have hcallee : ∀ arguments value, machine.callee? arguments ≠ some value := by
    intro arguments value hcallee
    have hlt := (callee?_eq_some hcallee).1
    simp [hempty] at hlt
  cases h with
  | full | empty | loadUnresolved | loadNoFrame | loadOutOfRange | loadMismatch | calleeMissing
  | notInvocable | arity | argument | tooDeep | outside => exact hempty
  | assignUnresolved | setNoFrame | setOutOfRange | setHeldMismatch | setNewMismatch
  | rightMismatch | leftMissing | testMismatch | leftMismatch | divisionByZero | resultFull =>
      simp [popped, hempty]
  | native callee | localsFull callee => exact absurd callee (hcallee _ _)

/-- A machine that stops with an empty stack still has one then. -/
theorem empty_of_step {outcome : Outcome} (hempty : machine.stack = #[])
    (h : machine.step program = .stopped outcome machine') : machine'.stack = #[] := by
  cases outcome with
  | completed =>
      obtain ⟨-, rfl⟩ := completed_of_step h
      exact hempty
  | halted name =>
      obtain ⟨instruction, -, hhalts⟩ := halts_of_step h
      cases hhalts with
      | builtin callee halts =>
          have hlt := (callee?_eq_some callee).1
          simp [hempty] at hlt
  | failed error =>
      obtain ⟨-, instruction, -, hfails⟩ := fails_of_step h
      exact hfails.empty_stack hempty

theorem Bound.step (h : program.Layout bodies main) (hbound : machine.Bound program main)
    (hstep : machine.step program = .running machine') : machine'.Bound program main := by
  obtain ⟨hlow, calls, hsound⟩ := hbound
  have hnext := hsound.step h
  rw [hstep] at hnext
  exact ⟨hlow.step h hsound hstep, _, hnext⟩

theorem bound_start (h : program.Layout bodies main) (output : Sink) :
    (start program output).Bound program main := by
  refine ⟨⟨fun _ => Nat.zero_le _, by simp [start]⟩, [], ?_⟩
  exact Reaches.start.sound h

theorem empty_of_run (h : program.Layout bodies main) (output : Sink) (fuel : Nat)
    (hframes : ((start program output).run program fuel).machine.frames = [])
    (hpc : ((start program output).run program fuel).machine.pc ∈
        Block.starts program.entry main ∨
      ((start program output).run program fuel).machine.pc = program.code.size) :
    ((start program output).run program fuel).machine.stack = #[] := by
  have hrun := run_induction (fun _ _ => Bound.step h) (bound_start h output) fuel
  cases hresult : (start program output).run program fuel with
  | running machine =>
      rw [hresult] at hrun hframes hpc
      exact empty_of_bound h hrun hframes hpc
  | stopped outcome machine =>
      rw [hresult] at hrun hframes hpc
      obtain ⟨before, hbound, hstep⟩ := hrun
      have hkept := kept_of_step hstep
      simp only [Progress.machine, hkept.frames, hkept.pc] at hframes hpc
      exact empty_of_step (empty_of_bound h hbound hframes hpc) hstep

theorem completed_of_run (h : program.Layout bodies main) {output : Sink} {fuel : Nat}
    (hrun : (start program output).run program fuel = .stopped .completed machine) :
    machine.stack = #[] ∧ machine.frames = [] := by
  have hbefore := run_induction (fun _ _ => Bound.step h) (bound_start h output) fuel
  rw [hrun] at hbefore
  obtain ⟨before, hbound, hstep⟩ := hbefore
  obtain ⟨calls, hsound⟩ := hbound.2
  obtain ⟨hpc, hframes⟩ := hsound.completed h hstep
  obtain ⟨-, rfl⟩ := completed_of_step hstep
  exact ⟨empty_of_bound h hbound hframes (.inr hpc), hframes⟩

/-- The top-level code leaves no operands behind. -/
theorem stack_empty_between_statements (hbuilt : program.Built) :
    (∃ main, program.mainCode = Block.code program.entry main) ∧
    (∀ main, program.mainCode = Block.code program.entry main → ∀ output fuel,
      ((start program output).run program fuel).machine.frames = [] →
      (((start program output).run program fuel).machine.pc ∈ Block.starts program.entry main ∨
        ((start program output).run program fuel).machine.pc = program.code.size) →
      ((start program output).run program fuel).machine.stack = #[]) ∧
    (∀ output fuel machine,
      (start program output).run program fuel = .stopped .completed machine →
        machine.stack = #[] ∧ machine.frames = []) := by
  obtain ⟨bodies, main, h⟩ := hbuilt.exists_layout
  refine ⟨⟨main, h.mainCode⟩, ?_, ?_⟩
  · intro other hother output fuel hframes hpc
    exact empty_of_run (h.of_mainCode hother) output fuel hframes hpc
  · intro output fuel machine hrun
    exact completed_of_run h hrun

theorem stack_empty_after_loop :
    ∃ (program : Program Native) (machine : Machine Native), program.Built ∧
      (start program {}).run program 40 = .stopped .completed machine ∧
      machine.stack = #[] ∧ machine.frames = [] := by
  let func : Func := ⟨"f", [], none, 0, {}⟩
  let program : Program Native :=
    { code := #[.loadGlobal "x", .push (.int 1), .binary .add, .assignGlobal "x", .ret,
        .loadGlobal "x", .push (.int 1), .binary .lt, .jumpIfZero 13, .loadGlobal "f", .invoke 0,
        .push (.int 0), .jumpIfZero 5]
      globals := ⟨[⟨"x", .int⟩, ⟨"f", .function⟩]⟩
      memory := #[.int 0, .function func]
      entry := 5 }
  let machine : Machine Native := { pc := 13, memory := #[.int 1, .function func] }
  have hcompile : Script.compile []
      "var x int func f() \x7b x = x + 1 \x7d while x < 1 \x7b f() \x7d" #[] =
      .ok program #[.functionCompiled "f" 0 5 0, .jumpSettled 8 13, .mainCompiled 5 13] := by cbv
  have hbuilt : program.Built := .compile hcompile
  have hrun : (start program {}).run program 40 = .stopped .completed machine := by cbv
  exact ⟨program, machine, hbuilt, hrun, (stack_empty_between_statements hbuilt).2.2 _ _ _ hrun⟩

end Machine

end StackScript
