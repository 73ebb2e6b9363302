import Mathlib
import StackScript.Native
import StackScript.Proofs.Building
import StackScript.Proofs.Faults

/-!
# Control stays where it belongs

The program counter is in the top-level code while no call is active, and in the body of the
function that was called last otherwise. Every active call returns right behind the instruction
that made it, and function values are functions of the program. This holds of every state that any
number of runs can lead to, also after a failure or a halt.
-/

namespace StackScript

variable {ν : Type}

namespace Program

/-- The position is in the top-level code or right behind it. -/
def InMain (program : Program ν) (position : Nat) : Prop :=
  program.entry ≤ position ∧ position ≤ program.code.size

/-- The position is in the body of a function: from its entry up to the next entry of a function
or of the top-level code. -/
def InBody (program : Program ν) (func : Func) (position : Nat) : Prop :=
  func.entry ≤ position ∧ position < program.entry ∧
    ∀ other ∈ program.functions, func.entry < other.entry → position < other.entry

/-- Active calls, the innermost first, of functions with the control at a position. The position is
in the body of the function that was called last, and the place where the call returns to follows a
call and is in the same way in the code of its caller. -/
def Nested (program : Program ν) : (position : Nat) → List Frame → List Func → Prop
  | position, [], [] => program.InMain position
  | position, frame :: frames, func :: calls =>
      func ∈ program.functions ∧ program.InBody func position ∧
      (∃ call arguments, frame.resume = call + 1 ∧
        program.code[call]? = some (.invoke arguments)) ∧
      Nested program frame.resume frames calls
  | _, _, _ => False

end Program

namespace Machine

variable [Host ν]

/-- The functions whose calls are active after a step, the innermost first, given those before. -/
def callsAfter (program : Program ν) (machine : Machine ν) (calls : List Func) : List Func :=
  match program.code[machine.pc]?, machine.step program with
  | some (.invoke arguments), .running _ =>
      match machine.callee? arguments with
      | some (.function func) => func :: calls
      | _ => calls
  | some .ret, .running _ => calls.tail
  | _, _ => calls

/-- The states that runs lead to, with the functions whose calls are active. A machine that has
stopped can be run again from where it is. -/
inductive Reaches (program : Program ν) (output : Sink) : Machine ν → List Func → Prop
  | start : Reaches program output (start program output) []
  | step {machine : Machine ν} {calls : List Func}
      (reaches : Reaches program output machine calls) :
      Reaches program output (machine.step program).machine (machine.callsAfter program calls)

end Machine

/-! ## Regions of the code -/

namespace Program.Layout

variable {program : Program ν} {bodies : List Compiled} {main : Block} {compiled : Compiled}
  {position : Nat} {instruction : Instruction}

theorem inBody_iff (h : program.Layout bodies main) (hmem : compiled ∈ bodies) :
    program.InBody compiled.func position ↔
      compiled.func.entry ≤ position ∧ position ≤ compiled.last := by
  constructor
  · rintro ⟨hentry, hmain, hothers⟩
    refine ⟨hentry, ?_⟩
    rcases h.laid.next hmem with hlast | ⟨other, hother, hlast⟩
    · omega
    · have hlt : compiled.func.entry < other.func.entry := by
        simp only [Compiled.last] at hlast
        omega
      have := hothers other.func (h.mem_functions.2 ⟨other, hother, rfl⟩) hlt
      omega
  · rintro ⟨hentry, hlast⟩
    have hbounds := h.laid.bounds hmem
    refine ⟨hentry, by omega, fun func hfunc hlt => ?_⟩
    obtain ⟨other, hother, rfl⟩ := h.mem_functions.1 hfunc
    have := h.laid.separate hmem hother hlt
    omega

theorem code_last (h : program.Layout bodies main) (hmem : compiled ∈ bodies) :
    program.code[compiled.last]? = some .ret := by
  apply h.holds_body hmem
  simp [Compiled.code, Block.length_code]

/-- Before its last return, the body of a function is the code of its block. -/
theorem mem_code_of_lt_last (h : program.Layout bodies main) (hmem : compiled ∈ bodies)
    (hentry : compiled.func.entry ≤ position) (hlast : position < compiled.last)
    (hcode : program.code[position]? = some instruction) :
    instruction ∈ Block.code compiled.func.entry compiled.body := by
  have hlt : position - compiled.func.entry <
      (Block.code compiled.func.entry compiled.body).length := by
    simp only [Compiled.last] at hlast
    rw [Block.length_code]
    omega
  have hheld := h.holds_body hmem
    (show compiled.code[position - compiled.func.entry]? = _ by
      rw [Compiled.code, List.getElem?_append_left hlt, List.getElem?_eq_getElem hlt])
  rw [Nat.add_sub_cancel' hentry, hcode] at hheld
  exact Option.some.inj hheld ▸ List.getElem_mem hlt

theorem getElem?_main (h : program.Layout bodies main) (hentry : program.entry ≤ position)
    (hcode : program.code[position]? = some instruction) :
    (Block.code program.entry main)[position - program.entry]? = some instruction := by
  have hsize := h.size_code
  obtain ⟨hlt, -⟩ := Array.getElem?_eq_some_iff.1 hcode
  have hlt' : position - program.entry < (Block.code program.entry main).length := by
    rw [Block.length_code]
    omega
  have hheld := h.holds_main (List.getElem?_eq_getElem hlt')
  rw [Nat.add_sub_cancel' hentry, hcode] at hheld
  rw [List.getElem?_eq_getElem hlt', hheld]

theorem mem_code_of_inMain (h : program.Layout bodies main) (hentry : program.entry ≤ position)
    (hcode : program.code[position]? = some instruction) :
    instruction ∈ Block.code program.entry main :=
  List.mem_of_getElem? (h.getElem?_main hentry hcode)

/-- Going on with the next instruction stays in the body or in the top-level code. -/
theorem nested_next (h : program.Layout bodies main) {frames : List Frame} {calls : List Func}
    (hnested : program.Nested position frames calls)
    (hcode : program.code[position]? = some instruction) (hret : instruction ≠ .ret) :
    program.Nested (position + 1) frames calls := by
  obtain ⟨hlt, -⟩ := Array.getElem?_eq_some_iff.1 hcode
  match frames, calls with
  | [], [] => exact ⟨Nat.le_succ_of_le hnested.1, hlt⟩
  | frame :: frames, func :: calls =>
      obtain ⟨hfunc, hbody, hresume, hrest⟩ := hnested
      obtain ⟨compiled, hmem, rfl⟩ := h.mem_functions.1 hfunc
      obtain ⟨hentry, hlast⟩ := (h.inBody_iff hmem).1 hbody
      -- the last instruction of the body is a return, so this is an earlier one
      have hne : position ≠ compiled.last := by
        rintro rfl
        rw [h.code_last hmem] at hcode
        exact hret (Option.some.inj hcode).symm
      exact ⟨hfunc, (h.inBody_iff hmem).2 ⟨by omega, by omega⟩, hresume, hrest⟩

/-- A jump stays in the body or in the top-level code. -/
theorem nested_jump (h : program.Layout bodies main) {frames : List Frame} {calls : List Func}
    {target : Nat} (hnested : program.Nested position frames calls)
    (hcode : program.code[position]? = some (.jumpIfZero target)) :
    program.Nested target frames calls := by
  match frames, calls with
  | [], [] =>
      have hjump := Block.target_of_mem_code main _ (h.mem_code_of_inMain hnested.1 hcode)
      have hsize := h.size_code
      exact ⟨hjump.1, by omega⟩
  | frame :: frames, func :: calls =>
      obtain ⟨hfunc, hbody, hresume, hrest⟩ := hnested
      obtain ⟨compiled, hmem, rfl⟩ := h.mem_functions.1 hfunc
      obtain ⟨hentry, hlast⟩ := (h.inBody_iff hmem).1 hbody
      have hne : position ≠ compiled.last := by
        rintro rfl
        rw [h.code_last hmem] at hcode
        cases hcode
      have hjump := Block.target_of_mem_code compiled.body _
        (h.mem_code_of_lt_last hmem hentry (by omega) hcode)
      exact ⟨hfunc, (h.inBody_iff hmem).2 hjump, hresume, hrest⟩

theorem inBody_entry (h : program.Layout bodies main) {func : Func}
    (hfunc : func ∈ program.functions) : program.InBody func func.entry := by
  obtain ⟨compiled, hmem, rfl⟩ := h.mem_functions.1 hfunc
  exact (h.inBody_iff hmem).2 ⟨Nat.le_refl _, by simp [Compiled.last]⟩

/-- The body of a function ends with a return. -/
theorem exists_last (h : program.Layout bodies main) {func : Func}
    (hfunc : func ∈ program.functions) :
    ∃ last, program.InBody func last ∧ program.code[last]? = some .ret ∧
      ∀ position, program.InBody func position → position ≤ last := by
  obtain ⟨compiled, hmem, rfl⟩ := h.mem_functions.1 hfunc
  refine ⟨compiled.last, ?_, h.code_last hmem, fun position hposition => ?_⟩
  · exact (h.inBody_iff hmem).2 ⟨by simp [Compiled.last], Nat.le_refl _⟩
  · exact ((h.inBody_iff hmem).1 hposition).2

end Program.Layout

theorem Program.Nested.position_le {program : Program ν} {bodies : List Compiled} {main : Block}
    (hlayout : program.Layout bodies main) {position : Nat} {frames : List Frame}
    {calls : List Func} (h : program.Nested position frames calls) :
    position ≤ program.code.size := by
  match frames, calls with
  | [], [] => exact h.2
  | frame :: frames, func :: calls =>
      have hbody := h.2.1.2.1
      have hsize := hlayout.size_code
      omega

theorem Program.Nested.frames_eq_nil_iff {program : Program ν} {position : Nat}
    {frames : List Frame} {calls : List Func} (h : program.Nested position frames calls) :
    frames = [] ↔ program.InMain position := by
  match frames, calls with
  | [], [] => exact ⟨fun _ => h, fun _ => rfl⟩
  | frame :: frames, func :: calls =>
      refine ⟨by simp, fun hmain => ?_⟩
      have hbody := h.2.1.2.1
      have := hmain.1
      omega

/-! ## Steps and runs -/

namespace Machine

variable [Host ν] {program : Program ν} {bodies : List Compiled} {main : Block}
  {machine machine' : Machine ν} {calls : List Func}

/-- The calls of a machine are nested and its function values are functions of the program. -/
structure Sound (program : Program ν) (machine : Machine ν) (calls : List Func) : Prop where
  nested : program.Nested machine.pc machine.frames calls
  known : ∀ func, machine.Holds func → func ∈ program.functions

theorem nested_of_moves (h : program.Layout bodies main) (hsound : machine.Sound program calls)
    {instruction : Instruction} (hcode : program.code[machine.pc]? = some instruction)
    (hstep : machine.step program = .running machine')
    (hmoves : Moves program machine instruction machine') :
    program.Nested machine'.pc machine'.frames (machine.callsAfter program calls) := by
  have hnested := hsound.nested
  simp only [callsAfter, hcode, hstep]
  cases hmoves with
  | load loads room =>
      cases loads <;> exact h.nested_next hnested hcode (by simp)
  | assignGlobal | setLocal | binary | pop => exact h.nested_next hnested hcode (by simp)
  | jumpIfZero top =>
      dsimp only
      split
      · exact h.nested_jump hnested hcode
      · exact h.nested_next hnested hcode (by simp)
  | builtin callee proceeds =>
      simp only [callee]
      exact h.nested_next hnested hcode (by simp)
  | function callee accepts depth =>
      simp only [callee]
      have hfunc := hsound.known _ (.inl (callee?_eq_some callee).2)
      exact ⟨hfunc, h.inBody_entry hfunc, ⟨_, _, rfl, hcode⟩,
        h.nested_next hnested hcode (by simp)⟩
  | ret active =>
      rw [active] at hnested
      match calls, hnested with
      | func :: calls, hnested => exact hnested.2.2.2

theorem callsAfter_of_stopped {outcome : Outcome}
    (hstep : machine.step program = .stopped outcome machine') :
    machine.callsAfter program calls = calls := by
  unfold callsAfter
  rw [hstep]
  split <;> simp_all

/-- Every step keeps a machine sound. -/
theorem Sound.step (h : program.Layout bodies main) (hsound : machine.Sound program calls) :
    (machine.step program).machine.Sound program (machine.callsAfter program calls) := by
  refine ⟨?_, fun func hfunc => hsound.known func (holds_of_step hfunc)⟩
  cases hstep : machine.step program with
  | running machine' =>
      obtain ⟨instruction, hcode, hmoves⟩ := moves_of_step hstep
      exact nested_of_moves h hsound hcode hstep hmoves
  | stopped outcome machine' =>
      have hkept := kept_of_step hstep
      simp only [Progress.machine]
      rw [hkept.pc, hkept.frames, callsAfter_of_stopped hstep]
      exact hsound.nested

/-- Every state that runs lead to is sound. -/
theorem Reaches.sound (h : program.Layout bodies main) {output : Sink}
    (hreaches : Reaches program output machine calls) : machine.Sound program calls := by
  induction hreaches with
  | start =>
      refine ⟨⟨Nat.le_refl _, ?_⟩, ?_⟩
      · have hsize := h.size_code
        exact Nat.le_of_add_right_le (Nat.le_of_eq hsize.symm)
      · intro func hfunc
        rcases hfunc with hfunc | hfunc
        · simp [Machine.start] at hfunc
        · exact h.mem_functions.2 ((h.functions func).1 hfunc)
  | step reaches ih => exact ih.step h

/-- A sound machine completes only at the end of the top-level code. -/
theorem Sound.completed (h : program.Layout bodies main) (hsound : machine.Sound program calls)
    (hstep : machine.step program = .stopped .completed machine') :
    machine'.pc = program.code.size ∧ machine'.frames = [] := by
  obtain ⟨hend, rfl⟩ := completed_of_step hstep
  have hpc := Array.getElem?_eq_none_iff.1 hend
  have hle := hsound.nested.position_le h
  have hsize := h.size_code
  have hframes := hsound.nested.frames_eq_nil_iff.2 ⟨by omega, hle⟩
  exact ⟨Nat.le_antisymm hle hpc, hframes⟩

/-- Control-flow integrity. -/
theorem controlFlow_of_reaches (hbuilt : program.Built) {output : Sink}
    (hreaches : Reaches program output machine calls) :
    (machine.frames = [] ↔ program.InMain machine.pc) ∧
    program.Nested machine.pc machine.frames calls ∧
    (∀ func ∈ program.functions, ∃ last, program.InBody func last ∧
      program.code[last]? = some .ret ∧
      ∀ position, program.InBody func position → position ≤ last) ∧
    (∀ func, machine.Holds func → func ∈ program.functions) ∧
    (∀ index after, machine.step program ≠ .stopped (.failed ⟨index, .noActiveFrame⟩) after) ∧
    (∀ index after,
      machine.step program = .stopped (.failed ⟨index, .returnOutsideFunction⟩) after →
        program.code[index]? = some .ret ∧ program.InMain index) ∧
    (∀ after, machine.step program = .stopped .completed after →
      after.pc = program.code.size ∧ after.frames = []) := by
  obtain ⟨bodies, main, h⟩ := hbuilt.exists_layout
  obtain ⟨hnested, hknown⟩ := hreaches.sound h
  have hmain := hnested.frames_eq_nil_iff
  refine ⟨hmain, hnested, fun func => h.exists_last, hknown, ?_, ?_, ?_⟩
  · intro index after hstep
    obtain ⟨-, instruction, hcode, hneeds⟩ := failed_of_step hstep
    obtain ⟨hinstruction, hframes⟩ := hneeds rfl
    -- without an active call this is top-level code, which has no locals
    have hlocal := h.topLevel _ (h.mem_code_of_inMain (hmain.1 hframes).1 hcode)
    rcases hinstruction with ⟨-, hfault⟩ | ⟨⟨slot, type, rfl | rfl⟩, -⟩
    · cases hfault
    · cases hlocal
    · cases hlocal
  · intro index after hstep
    obtain ⟨rfl, instruction, hcode, hneeds⟩ := failed_of_step hstep
    obtain ⟨hinstruction, hframes⟩ := hneeds rfl
    rcases hinstruction with ⟨rfl, -⟩ | ⟨-, hfault⟩
    · exact ⟨hcode, hmain.1 hframes⟩
    · cases hfault
  · intro after hstep
    exact Sound.completed h ⟨hnested, hknown⟩ hstep

theorem controlFlow_inside_call :
    ∃ (program : Program Native) (machine : Machine Native) (func : Func),
      program.Built ∧ Reaches program {} machine [func] ∧ machine.frames ≠ [] ∧
        ¬ program.InMain machine.pc ∧ program.InBody func machine.pc := by
  let func : Func := ⟨"f", [], none, 0, {}⟩
  let program : Program Native :=
    { code := #[.ret, .ret, .loadGlobal "f", .invoke 0]
      globals := ⟨[⟨"f", .function⟩]⟩
      memory := #[.function func]
      entry := 2 }
  let machine : Machine Native := { pc := 0, frames := [⟨4, 0⟩], memory := #[.function func] }
  have hcompile : Script.compile [] "func f() \x7b return \x7d f()" #[] =
      .ok program #[.functionCompiled "f" 0 2 0, .mainCompiled 2 4] := by cbv
  have hbuilt : program.Built := .compile hcompile
  have hreaches : Reaches program {} machine [func] := .step (.step .start)
  have hflow := controlFlow_of_reaches hbuilt hreaches
  exact ⟨program, machine, func, hbuilt, hreaches, by simp [machine],
    fun hmain => by simpa [machine] using hflow.1.2 hmain, hflow.2.1.2.1⟩

end Machine

end StackScript
