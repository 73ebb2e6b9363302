import Mathlib.Data.List.Forall2
import StackScript.Proofs.LocalTypes
import StackScript.Proofs.Operands

/-!
# Scripts that call for effect only

A call leaves no value, so a call where a value is needed lets the code take one that is not its
own. In a script whose calls are all statements this does not happen: on the stack of the running
function are its locals, each of its type, and as many operands as are counted.
-/

namespace StackScript

variable {ν : Type}

/-! ## Calls as statements -/

namespace Expr

/-- There is no call in the expression. -/
def isPlain : Expr → Bool
  | .literal _ | .variable _ => true
  | .call _ _ => false
  | .binary left _ right => left.isPlain && right.isPlain

/-- There is no call inside the expression, but it may be a call itself. -/
def isPlainInside : Expr → Bool
  | .call callee arguments => callee.isPlain && arguments.all isPlain
  | other => other.isPlain

end Expr

mutual

/-- Every call in the statement is a statement. -/
def Stmt.isWellCalled : Stmt → Bool
  | .skip | .ret | .declare _ _ => true
  | .branch test body | .loop test body => test.isPlain && Block.isWellCalled body
  | .assign _ value => value.isPlain
  | .evaluate term => term.isPlainInside

/-- Every call in the block is a statement. -/
def Block.isWellCalled : Block → Bool
  | [] => true
  | first :: rest => first.isWellCalled && Block.isWellCalled rest

end

/-- Every call in the body of a function is a statement. -/
def Definition.isWellCalled : Definition → Bool
  | .variable _ _ => true
  | .function _ _ body => Block.isWellCalled body

/-- Every call in the script is a statement. -/
def Script.Tree.isWellCalled (tree : Script.Tree) : Bool :=
  tree.definitions.all Definition.isWellCalled && Block.isWellCalled tree.main

/-! ## Operands of calls that are statements -/

/-- The operands that the instruction takes are counted before it. -/
def Program.Fed (program : Program ν) (position : Nat) (instruction : Instruction) : Prop :=
  instruction.takes ≤ program.operandsAt position

section Fed

variable {program : Program ν}

/-- An operand that has just been added feeds an instruction that takes one. -/
theorem Program.fed_of_succ {position operands : Nat} {instruction : Instruction}
    (h : program.operandsAt position = operands + 1) (htakes : instruction.takes = 1) :
    program.Fed position instruction := by
  rw [Fed, htakes, h]
  exact Nat.le_add_left 1 operands

namespace Expr

/-- An expression without calls adds one operand. -/
theorem fed (expression : Expr) (hplain : expression.isPlain = true) {start : Nat}
    (h : program.Holds start expression.code) :
    program.operandsAt (start + expression.size) = program.operandsAt start + 1 ∧
      program.Each program.Fed start (start + expression.size) := by
  match expression with
  | .literal _ | .variable (.slot _ _) | .variable (.global _) =>
      exact ⟨Program.operandsAt_succ h.head, .single h.head (Nat.zero_le _)⟩
  | .binary left operator right =>
      obtain ⟨hleft, hright⟩ := Bool.and_eq_true_iff.1 hplain
      rw [code] at h
      obtain ⟨hfirst, hfedLeft⟩ := left.fed hleft h.left
      have hrest := h.right
      rw [left.length_code] at hrest
      obtain ⟨hsecond, hfedRight⟩ := right.fed hright hrest.left
      have hbinary := hrest.right
      rw [right.length_code] at hbinary
      have hafter := Program.operandsAt_succ hbinary.head
      simp only [Instruction.operandsAfter, Instruction.takes, Instruction.gives, reduceCtorEq,
        if_false] at hafter
      simp only [size, ← Nat.add_assoc]
      refine ⟨by omega, (hfedLeft.trans hfedRight).trans (.single hbinary.head ?_)⟩
      simp only [Program.Fed, Instruction.takes]
      omega

/-- Expressions without calls add one operand each. -/
theorem fedAll (list : List Expr) (hplain : ∀ expression ∈ list, expression.isPlain = true)
    {start : Nat} (h : program.Holds start (codeAll list)) :
    program.operandsAt (start + sizeAll list) = program.operandsAt start + list.length ∧
      program.Each program.Fed start (start + sizeAll list) := by
  induction list generalizing start with
  | nil => exact ⟨rfl, .refl start⟩
  | cons first rest ih =>
      obtain ⟨hfirst, hrest⟩ := List.forall_mem_cons.1 hplain
      rw [codeAll] at h
      obtain ⟨hmiddle, hfedFirst⟩ := first.fed hfirst h.left
      have hright := h.right
      rw [first.length_code] at hright
      obtain ⟨hend, hfedRest⟩ := ih hrest hright
      simp only [sizeAll, ← Nat.add_assoc, List.length_cons]
      exact ⟨by omega, hfedFirst.trans hfedRest⟩

/-- A call finds its callee and its arguments. -/
theorem fed_call (callee : Expr) (arguments : List Expr)
    (hplain : (call callee arguments).isPlainInside = true) {start : Nat}
    (h : program.Holds start (call callee arguments).code) :
    program.Each program.Fed start (start + (call callee arguments).size) := by
  obtain ⟨hcallee, harguments⟩ := Bool.and_eq_true_iff.1 hplain
  rw [code] at h
  obtain ⟨hfirst, hfedCallee⟩ := callee.fed hcallee h.left
  have hright := h.right
  rw [callee.length_code] at hright
  obtain ⟨hlist, hfedAll⟩ := fedAll arguments (List.all_eq_true.1 harguments) hright.left
  have hinvoke := hright.right
  rw [length_codeAll] at hinvoke
  simp only [size, ← Nat.add_assoc]
  refine (hfedCallee.trans hfedAll).trans (.single hinvoke.head ?_)
  simp only [Program.Fed, Instruction.takes]
  omega

end Expr

mutual

theorem Stmt.fed (statement : Stmt) (hcalls : statement.isWellCalled = true) {start : Nat}
    (h : program.Holds start (statement.code start)) (hstart : program.operandsAt start = 0) :
    program.Each program.Fed start (start + statement.size) := by
  match statement with
  | .skip | .declare _ _ => exact .refl start
  | .ret => exact .single h.head (Nat.zero_le _)
  | .branch test body =>
      obtain ⟨hplain, hbody⟩ := Bool.and_eq_true_iff.1 hcalls
      rw [Stmt.code] at h
      obtain ⟨htest, hfedTest⟩ := test.fed hplain h.left
      have hright := h.right
      rw [test.length_code] at hright
      obtain ⟨-, hinside⟩ := Program.operandsAt_test test hstart h.left hright.head
      have hfedJump := Program.Each.single hright.head (Program.fed_of_succ htest rfl)
      rw [Stmt.size, ← Nat.add_assoc, ← Nat.add_assoc]
      exact (hfedTest.trans hfedJump).trans (Block.fed body hbody hright.tail hinside)
  | .loop test body =>
      obtain ⟨hplain, hbody⟩ := Bool.and_eq_true_iff.1 hcalls
      rw [Stmt.code] at h
      obtain ⟨htest, hfedTest⟩ := test.fed hplain h.left
      have hright := h.right
      rw [test.length_code] at hright
      obtain ⟨-, hinside⟩ := Program.operandsAt_test test hstart h.left hright.head
      have hfedJump := Program.Each.single hright.head (Program.fed_of_succ htest rfl)
      have hfedBody := Block.fed body hbody hright.tail.left hinside
      have hback := hright.tail.right
      rw [Block.length_code] at hback
      have hpush := Program.operandsAt_succ hback.head
      have hfedBack : program.Each program.Fed (start + test.size + 1 + Block.size body)
          (start + test.size + 1 + Block.size body + 1 + 1) :=
        .trans (.single hback.head (Nat.zero_le _))
          (.single hback.tail.head (Program.fed_of_succ hpush rfl))
      rw [Stmt.size, ← Nat.add_assoc, ← Nat.add_assoc, ← Nat.add_assoc]
      exact ((hfedTest.trans hfedJump).trans hfedBody).trans hfedBack
  | .assign target value =>
      rw [Stmt.code] at h
      obtain ⟨hvalue, hfedValue⟩ := value.fed hcalls h.left
      have hstore := h.right
      rw [value.length_code] at hstore
      rw [Stmt.size, ← Nat.add_assoc]
      refine hfedValue.trans (.single hstore.head (Program.fed_of_succ hvalue ?_))
      cases target <;> rfl
  | .evaluate (.call callee arguments) =>
      rw [Stmt.code] at h
      exact Expr.fed_call callee arguments hcalls h.left
  | .evaluate (.literal _) | .evaluate (.variable _) | .evaluate (.binary _ _ _) =>
      rw [Stmt.code] at h
      obtain ⟨hterm, hfedTerm⟩ := Expr.fed _ hcalls h.left
      have hpop := h.right
      rw [Expr.length_code] at hpop
      exact hfedTerm.trans (.single hpop.head (Program.fed_of_succ hterm rfl))

/-- A block whose calls are statements finds all its operands. -/
theorem Block.fed (block : Block) (hcalls : Block.isWellCalled block = true) {start : Nat}
    (h : program.Holds start (Block.code start block)) (hstart : program.operandsAt start = 0) :
    program.Each program.Fed start (start + Block.size block) := by
  match block with
  | [] => exact .refl start
  | first :: rest =>
      obtain ⟨hfirst, hrest⟩ := Bool.and_eq_true_iff.1 hcalls
      rw [Block.code] at h
      obtain ⟨hmiddle, -⟩ := first.level h.left hstart
      have hright := h.right
      rw [first.length_code] at hright
      rw [Block.size, ← Nat.add_assoc]
      exact (first.fed hfirst h.left hstart).trans (Block.fed rest hrest hright hmiddle)

end

/-- In a program whose calls are statements every instruction finds its operands. -/
theorem Program.Layout.fed {bodies : List Compiled} {main : Block}
    (h : program.Layout bodies main)
    (hbodies : ∀ compiled ∈ bodies, Block.isWellCalled compiled.body = true)
    (hmain : Block.isWellCalled main = true) {position : Nat} {instruction : Instruction}
    (hcode : program.code[position]? = some instruction) : program.Fed position instruction := by
  refine h.each ?_ (fun _ _ => Nat.zero_le _) (Block.fed main hmain h.holds_main h.operandsAt_main)
    hcode
  intro compiled hmem
  exact Block.fed compiled.body (hbodies compiled hmem) (h.holds_body hmem).left
    (h.operandsAt_entry hmem)

end Fed

/-! ## The shape of the stack -/

/-- The locals of a function stand on the stack from a place on, each of its declared type. -/
def Func.LocalsIn (func : Func) (stack : Array (Value ν)) (base : Nat) : Prop :=
  ∀ slot entry, func.locals.entries[slot]? = some entry →
    ∃ value, stack[base + slot]? = some value ∧ value.tag = entry.type

theorem Func.LocalsIn.of_getElem?_eq {func : Func} {stack stack' : Array (Value ν)} {base : Nat}
    (h : func.LocalsIn stack base)
    (hsame : ∀ index, index < base + func.locals.size → stack'[index]? = stack[index]?) :
    func.LocalsIn stack' base := by
  intro slot entry hentry
  have hslot : slot < func.locals.size := (List.getElem?_eq_some_iff.1 hentry).1
  rw [hsame _ (Nat.add_lt_add_left hslot base)]
  exact h slot entry hentry

namespace Machine

variable {program : Program ν} {bodies : List Compiled} {main : Block} {output : Sink}
  {again : Bool} {machine machine' : Machine ν} {call : Call ν} {call? : Option (Call ν)}
  {instruction : Instruction}

/-- Where the operands of the running code start on the stack: above the locals of the running
function, or at the bottom. -/
def floor (machine : Machine ν) (call? : Option (Call ν)) : Nat :=
  match machine.frames, call? with
  | frame :: _, some call => frame.base + call.func.locals.size
  | _, _ => 0

theorem floor_of_frames_nil (h : machine.frames = []) : machine.floor call? = 0 := by
  simp only [floor, h]

theorem floor_some {frame : Frame} {frames : List Frame} (h : machine.frames = frame :: frames) :
    machine.floor (some call) = frame.base + call.func.locals.size := by
  simp only [floor, h]

theorem floor_of_frames_eq (h : machine'.frames = machine.frames) :
    machine'.floor call? = machine.floor call? := by
  simp only [floor, h]

/-- On the stack of the innermost call are its locals and the counted operands, and below them what
the caller has left. -/
structure Shaped (program : Program ν) (machine : Machine ν) (call? : Option (Call ν)) : Prop where
  size : machine.stack.size = machine.floor call? + program.operandsAt machine.pc
  locals : ∀ call frame frames, call? = some call → machine.frames = frame :: frames →
    call.func.LocalsIn machine.stack frame.base
  below : ∀ call frame frames, call? = some call → machine.frames = frame :: frames →
    ∀ index, index < frame.base → machine.stack[index]? = call.origin.stack[index]?

/-- A function starts with its locals. -/
theorem shaped_entered {compiled : Compiled} (h : program.Layout bodies main)
    (hmem : compiled ∈ bodies) (htyped : compiled.IsTyped) {arguments : Nat}
    (haccepts : checkArguments compiled.func (machine.above (machine.calleePlace arguments)) =
      .ok ()) :
    (machine.entered arguments compiled.func).Shaped program (some ⟨machine, compiled.func⟩) := by
  have htags := htyped.tags_of_call haccepts
  refine ⟨?_, ?_, ?_⟩
  · have hlength := congrArg List.length htags
    rw [List.length_map, List.length_map] at hlength
    have hentry : program.operandsAt (machine.entered arguments compiled.func).pc = 0 :=
      h.operandsAt_entry hmem
    rw [floor_some rfl, hentry]
    simp only [entered, Array.size_append, size_stack_take_calleePlace, List.size_toArray, hlength]
    rfl
  · intro call frame frames hcall hframes
    cases hcall
    cases hframes
    intro slot entry hentry
    rw [getElem?_entered_slot]
    have htag := congrArg (fun types => types[slot]?) htags
    simp only [List.getElem?_map, hentry, Option.map_some] at htag
    obtain ⟨value, hvalue, htag⟩ := Option.map_eq_some_iff.1 htag
    exact ⟨value, hvalue, htag⟩
  · intro call frame frames hcall hframes index hindex
    cases hcall
    cases hframes
    exact getElem?_entered_below hindex

/-- A return takes the caller back to what it had below the callee. -/
theorem Shaped.returned {origin : Machine ν} {func : Func} {arguments : Nat}
    (hshaped : machine.Shaped program (some ⟨origin, func⟩))
    (hframes : machine.frames = ⟨origin.pc + 1, origin.calleePlace arguments⟩ :: origin.frames)
    (horigin : origin.Shaped program call?)
    (hinvoke : program.code[origin.pc]? = some (.invoke arguments))
    (hfed : program.Fed origin.pc (.invoke arguments)) :
    (machine.returned ⟨origin.pc + 1, origin.calleePlace arguments⟩ origin.frames).Shaped program
      call? := by
  have hsize : machine.stack.size =
      origin.calleePlace arguments + func.locals.size + program.operandsAt machine.pc := by
    rw [hshaped.size, floor_some hframes]
  have hsizeOrigin := horigin.size
  have hplace : origin.calleePlace arguments = origin.stack.size - (arguments + 1) := rfl
  simp only [Program.Fed, Instruction.takes] at hfed
  have hkeeps : ∀ index, index < origin.calleePlace arguments →
      (machine.stack.take (origin.calleePlace arguments))[index]? = origin.stack[index]? := by
    intro index hindex
    rw [getElem?_take_of_lt hindex]
    exact hshaped.below _ _ _ rfl hframes index hindex
  refine ⟨?_, ?_, ?_⟩
  · have hafter := Program.operandsAt_succ hinvoke
    simp only [Instruction.operandsAfter, reduceCtorEq, if_false, Instruction.takes,
      Instruction.gives] at hafter
    have hfloor : (machine.returned ⟨origin.pc + 1, origin.calleePlace arguments⟩
        origin.frames).floor call? = origin.floor call? := floor_of_frames_eq rfl
    have htake : (machine.stack.take (origin.calleePlace arguments)).size =
        min (origin.calleePlace arguments) machine.stack.size := by simp
    rw [hfloor]
    simp only [Machine.returned, htake, hafter]
    omega
  · intro call frame frames hcall hactive
    subst hcall
    have hactive' : origin.frames = frame :: frames := hactive
    rw [floor_some hactive'] at hsizeOrigin
    apply (horigin.locals call frame frames rfl hactive').of_getElem?_eq
    intro index hindex
    exact hkeeps index (by omega)
  · intro call frame frames hcall hactive index hindex
    subst hcall
    have hactive' : origin.frames = frame :: frames := hactive
    rw [floor_some hactive'] at hsizeOrigin
    rw [← horigin.below call frame frames rfl hactive' index hindex]
    exact hkeeps index (by omega)

/-! ### What an instruction needs -/

/-- A machine inside a call has the local that an instruction of the running function uses. -/
theorem Shaped.exists_local (hshaped : machine.Shaped program (some call))
    (htypes : call.func.locals.Types instruction) {frame : Frame} {frames : List Frame}
    (hframes : machine.frames = frame :: frames) {slot : Nat} {type : TypeTag}
    (hslot : instruction.slot? = some (slot, type)) :
    frame.base + slot < machine.floor (some call) ∧
      ∃ value, machine.stack[frame.base + slot]? = some value ∧ value.tag = type := by
  obtain ⟨entry, hentry, rfl⟩ := Option.map_eq_some_iff.1 (htypes slot type hslot)
  refine ⟨?_, hshaped.locals call frame frames rfl hframes slot entry hentry⟩
  rw [floor_some hframes]
  exact Nat.add_lt_add_left (List.getElem?_eq_some_iff.1 hentry).1 frame.base

/-- The operands that the instruction takes are there, and below them the local that it uses. -/
structure Ready (machine : Machine ν) (instruction : Instruction) : Prop where
  operands : instruction.takes ≤ machine.stack.size
  slot : ∀ slot type, instruction.slot? = some (slot, type) →
    ∃ frame frames value, machine.frames = frame :: frames ∧
      frame.base + slot < machine.stack.size - instruction.takes ∧
      machine.stack[frame.base + slot]? = some value ∧ value.tag = type

/-- The instruction did not fail for want of operands or locals, or because a local had another
type than declared. -/
structure Supplied (machine : Machine ν) (instruction : Instruction) (fault : Fault) : Prop where
  operands : fault ≠ .stackUnderflow
  call : fault ≠ .noActiveFrame
  slot : ∀ slot, fault ≠ .localOutOfRange slot
  load : ∀ slot type expected found, instruction = .loadLocal slot type →
    fault ≠ .typeMismatch expected found
  set : ∀ slot type, instruction = .setLocal slot type →
    ∃ frame frames held, machine.frames = frame :: frames ∧
      machine.stack[frame.base + slot]? = some held ∧ held.tag = type

namespace Ready

variable {slot : Nat} {type : TypeTag} {frame : Frame} {frames : List Frame}

theorem frames_ne_nil (h : machine.Ready instruction)
    (hslot : instruction.slot? = some (slot, type)) : machine.frames ≠ [] := by
  obtain ⟨frame, frames, _, hframes, -⟩ := h.slot slot type hslot
  rw [hframes]
  exact List.cons_ne_nil frame frames

theorem held_load (h : machine.Ready (.loadLocal slot type))
    (hframes : machine.frames = frame :: frames) :
    ∃ value, machine.stack[frame.base + slot]? = some value ∧ value.tag = type := by
  obtain ⟨frame', frames', value, hframes', -, hvalue⟩ := h.slot slot type rfl
  obtain ⟨rfl, rfl⟩ := List.cons.inj (hframes.symm.trans hframes')
  exact ⟨value, hvalue⟩

theorem held_set (h : machine.Ready (.setLocal slot type))
    (hframes : machine.frames = frame :: frames) :
    ∃ value, machine.stack.pop[frame.base + slot]? = some value ∧ value.tag = type := by
  obtain ⟨frame', frames', value, hframes', hlt, hvalue⟩ := h.slot slot type rfl
  obtain ⟨rfl, rfl⟩ := List.cons.inj (hframes.symm.trans hframes')
  rw [getElem?_pop_of_lt hlt]
  exact ⟨value, hvalue⟩

end Ready

variable [Host ν] {calls : List (Call ν)}

/-! ### Steps and runs -/

/-- The locals that an instruction uses are declared in the running function. -/
theorem Runs.types (h : program.Layout bodies main)
    (htyped : ∀ compiled ∈ bodies, compiled.IsTyped)
    (hruns : Runs program output again machine (call :: calls))
    (hcode : program.code[machine.pc]? = some instruction) :
    call.func.locals.Types instruction := by
  have hnested := (hruns.reaches.sound h).nested
  obtain ⟨⟨arguments, -, -, hframes⟩, -⟩ := hruns.within
  rw [hframes] at hnested
  obtain ⟨hknown, hbody, -⟩ : call.func ∈ program.functions ∧ program.InBody call.func _ ∧ _ :=
    hnested
  obtain ⟨compiled, hmem, hfunc⟩ := h.mem_functions.1 hknown
  rw [← hfunc] at hbody ⊢
  obtain ⟨hentry, hlast⟩ := (h.inBody_iff hmem).1 hbody
  have heach : program.Each (fun _ instruction => compiled.func.locals.Types instruction) _ _ :=
    .of_holds (h.holds_body hmem) fun _ => (htyped compiled hmem).slots
  refine heach machine.pc instruction hentry ?_ hcode
  rw [compiled.length_code]
  exact Nat.lt_succ_of_le hlast

/-- An instruction keeps the locals and counts the operands on. -/
theorem Shaped.moves (h : program.Layout bodies main)
    (htypes : ∀ call, call? = some call → call.func.locals.Types instruction)
    (hshaped : machine.Shaped program call?)
    (hcode : program.code[machine.pc]? = some instruction)
    (hfed : program.Fed machine.pc instruction)
    (hmoves : Moves program machine instruction machine')
    (hframes : machine'.frames = machine.frames) : machine'.Shaped program call? := by
  obtain ⟨htakes, hsize', hkeeps⟩ := hmoves.stack hframes
  have hsize := hshaped.size
  rw [Program.Fed] at hfed
  refine ⟨?_, ?_, ?_⟩
  · have hoperands := hmoves.operandsAt_pc hframes hcode (h.level hcode)
    rw [floor_of_frames_eq hframes, hsize', hoperands]
    omega
  · intro call frame frames hcall hactive slot entry hentry
    rw [hframes] at hactive
    subst hcall
    rw [floor_some hactive] at hsize
    have hslot : slot < call.func.locals.size := (List.getElem?_eq_some_iff.1 hentry).1
    rcases hkeeps (frame.base + slot) (by omega) with
      hkept | ⟨frame', frames', slot', value, hactive', rfl, hindex, hvalue⟩
    · rw [hkept]
      exact hshaped.locals call frame frames rfl hactive slot entry hentry
    · obtain ⟨rfl, rfl⟩ := List.cons.inj (hactive.symm.trans hactive')
      obtain rfl : slot = slot' := by omega
      have htype := htypes call rfl slot value.tag rfl
      rw [hentry] at htype
      exact ⟨value, hvalue, (Option.some.inj htype).symm⟩
  · intro call frame frames hcall hactive index hindex
    rw [hframes] at hactive
    subst hcall
    rw [floor_some hactive] at hsize
    rw [hmoves.stack_below hframes hactive hindex (by omega)]
    exact hshaped.below call frame frames rfl hactive index hindex

/-- In a program whose calls are statements all active calls have their shape. -/
theorem Runs.shaped (h : program.Layout bodies main)
    (htyped : ∀ compiled ∈ bodies, compiled.IsTyped)
    (hfed : ∀ position instruction, program.code[position]? = some instruction →
      program.Fed position instruction)
    (hruns : Runs program output false machine calls) :
    Everywhere (Shaped program) machine calls := by
  apply hruns.everywhere
  · refine ⟨?_, by simp, by simp⟩
    rw [floor_of_frames_nil rfl, Nat.zero_add]
    exact h.operandsAt_main.symm
  · intro machine machine' calls instruction hruns hlocal hcode hmoves hframes
    refine hlocal.moves h ?_ hcode (hfed _ _ hcode) hmoves hframes
    intro call hcall
    cases calls with
    | nil => cases hcall
    | cons first calls =>
        cases hcall
        exact hruns.types h htyped hcode
  · intro machine calls arguments func hruns hlocal hcode hcallee haccepts
    have hknown := (hruns.reaches.sound h).known func (.inl (callee?_eq_some hcallee).2)
    obtain ⟨compiled, hmem, rfl⟩ := h.mem_functions.1 hknown
    exact shaped_entered h hmem (htyped compiled hmem) haccepts
  · intro machine call calls arguments hruns hlocal hcode horigin houter hinvoke hcallee
    obtain ⟨⟨arguments', hinvoke', -, hframes⟩, -⟩ := hruns.within
    obtain ⟨⟩ := hinvoke.symm.trans hinvoke'
    exact hlocal.returned hframes houter hinvoke (hfed _ _ hinvoke)
  · intro machine machine' calls outcome hagain
    cases hagain

/-- The locals of all active calls are on the stack. -/
theorem Everywhere.locals (hshaped : Everywhere (Shaped program) machine calls)
    (hwithin : Within program output again machine calls)
    (hfed : ∀ position instruction, program.code[position]? = some instruction →
      program.Fed position instruction) {stack : Array (Value ν)}
    (hsame : ∀ index, index < machine.floor calls.head? → stack[index]? = machine.stack[index]?) :
    List.Forall₂ (fun frame call => call.func.LocalsIn stack frame.base) machine.frames calls := by
  induction calls generalizing machine with
  | nil =>
      have hframes : machine.frames = [] := hwithin
      rw [hframes]
      exact .nil
  | cons call calls ih =>
      obtain ⟨⟨arguments, hinvoke, -, hframes⟩, -, houter⟩ := hwithin
      obtain ⟨hlocal, horigin⟩ := hshaped
      have hfloor : machine.floor (some call) = _ := floor_some hframes
      rw [List.head?_cons, hfloor] at hsame
      rw [hframes]
      refine .cons ?_ (ih horigin houter ?_)
      · exact (hlocal.locals _ _ _ rfl hframes).of_getElem?_eq hsame
      · intro index hindex
        -- the caller has its locals below the callee
        have hsize := horigin.head.size
        have htakes := hfed _ _ hinvoke
        simp only [Program.Fed, Instruction.takes] at htakes
        have hplace : call.origin.calleePlace arguments =
            call.origin.stack.size - (arguments + 1) := rfl
        have hbelow : index < call.origin.calleePlace arguments := by omega
        rw [hsame index (Nat.lt_add_right _ hbelow)]
        exact hlocal.below _ _ _ rfl hframes index hbelow

/-- A machine that stops still has the locals of all active calls. -/
theorem Runs.locals_of_stopped (h : program.Layout bodies main)
    (htyped : ∀ compiled ∈ bodies, compiled.IsTyped)
    (hfed : ∀ position instruction, program.code[position]? = some instruction →
      program.Fed position instruction)
    (hruns : Runs program output false machine calls) {outcome : Outcome}
    (hstep : machine.step program = .stopped outcome machine') :
    List.Forall₂ (fun frame call => call.func.LocalsIn machine'.stack frame.base) machine'.frames
      calls := by
  have hshaped := hruns.shaped h htyped hfed
  rw [(kept_of_step hstep).frames]
  apply hshaped.locals hruns.within hfed
  intro index hindex
  apply stack_below_of_stopped hstep
  intro instruction hcode
  -- the operands of the instruction are counted, and the locals are below all that is counted
  have hsize := hshaped.head.size
  have htakes := hfed _ _ hcode
  rw [Program.Fed] at htakes
  omega

/-! ## Faults -/

/-- Only a machine inside a call performs an instruction that uses a local. -/
theorem Runs.ready (h : program.Layout bodies main)
    (htyped : ∀ compiled ∈ bodies, compiled.IsTyped)
    (hruns : Runs program output again machine calls)
    (hshaped : machine.Shaped program calls.head?)
    (hcode : program.code[machine.pc]? = some instruction)
    (hfed : program.Fed machine.pc instruction) : machine.Ready instruction := by
  have hsize := hshaped.size
  rw [Program.Fed] at hfed
  refine ⟨by omega, ?_⟩
  intro slot type hslot
  cases calls with
  | nil =>
      have hmain : program.InMain machine.pc :=
        (hruns.reaches.sound h).nested.frames_eq_nil_iff.1 hruns.within
      have hlocal := h.topLevel _ (h.mem_code_of_inMain hmain.1 hcode)
      cases instruction <;> cases hslot <;> cases hlocal
  | cons call calls =>
      obtain ⟨⟨arguments, -, -, hframes⟩, -⟩ := hruns.within
      obtain ⟨hlt, value, hvalue⟩ :=
        hshaped.exists_local (hruns.types h htyped hcode) hframes hslot
      rw [List.head?_cons] at hsize
      exact ⟨_, _, value, hframes, by omega, hvalue⟩

/-- An instruction that has all it needs fails for other reasons only. -/
theorem Fails.supplied {fault : Fault} (h : Fails program machine instruction fault machine')
    (hready : machine.Ready instruction) : machine'.Supplied instruction fault := by
  have hoperands := hready.operands
  cases h with
  | full loads =>
      refine ⟨by simp, by simp, by simp, by simp, ?_⟩
      rintro slot type rfl
      cases loads
  | empty pops empty =>
      have htakes : 0 < instruction.takes := by
        cases instruction <;> cases pops <;> simp [Instruction.takes]
      have hsize := Array.back?_eq_none_iff.1 empty
      simp only [hsize, List.size_toArray, List.length_nil] at hoperands
      omega
  | leftMissing top empty =>
      have hsize := congrArg Array.size (Array.back?_eq_none_iff.1 empty)
      simp only [Array.size_pop, List.size_toArray, List.length_nil] at hsize
      simp only [Instruction.takes] at hoperands
      omega
  | calleeMissing missing =>
      simp only [Instruction.takes] at hoperands
      rw [callee?, if_pos (Nat.lt_of_succ_le hoperands), Array.getElem?_eq_none_iff] at missing
      omega
  | loadNoFrame inactive | setNoFrame top inactive =>
      exact absurd inactive (hready.frames_ne_nil rfl)
  | loadOutOfRange active missing =>
      obtain ⟨value, hvalue, -⟩ := hready.held_load active
      rw [missing] at hvalue
      cases hvalue
  | setOutOfRange top active missing =>
      obtain ⟨value, hvalue, -⟩ := hready.held_set active
      rw [missing] at hvalue
      cases hvalue
  | loadMismatch active held mismatch =>
      obtain ⟨value, hvalue, htag⟩ := hready.held_load active
      obtain rfl := Option.some.inj (held.symm.trans hvalue)
      exact absurd htag mismatch
  | setHeldMismatch top active held mismatch =>
      obtain ⟨value, hvalue, htag⟩ := hready.held_set active
      obtain rfl := Option.some.inj (held.symm.trans hvalue)
      exact absurd htag mismatch
  | setNewMismatch top active held same mismatch =>
      refine ⟨by simp, by simp, by simp, by simp, ?_⟩
      rintro slot type ⟨⟩
      exact ⟨_, _, _, active, held, same⟩
  | loadUnresolved | assignUnresolved | rightMismatch | leftMismatch | divisionByZero | resultFull
  | testMismatch | notInvocable | native | arity | argument | tooDeep | localsFull | outside =>
      exact ⟨by simp, by simp, by simp, by simp, by simp⟩

/-! ## Runs of scripts -/

theorem runs_of_run (program : Program ν) (output : Sink) (fuel : Nat) :
    match (start program output).run program fuel with
    | .running machine => ∃ calls, Runs program output false machine calls
    | .stopped outcome machine =>
        ∃ before, (∃ calls, Runs program output false before calls) ∧
          before.step program = .stopped outcome machine := by
  refine run_induction ?_ ⟨[], .start⟩ fuel
  rintro machine machine' ⟨calls, hruns⟩ hstep
  exact hruns.next hstep

/-- A run that has stopped was stopped by its last step. -/
theorem runs_of_stopped {fuel : Nat} {outcome : Outcome}
    (hrun : (start program output).run program fuel = .stopped outcome machine) :
    ∃ before calls, Runs program output false before calls ∧
      before.step program = .stopped outcome machine := by
  have hreached := runs_of_run program output fuel
  rw [hrun] at hreached
  obtain ⟨before, ⟨calls, hruns⟩, hstep⟩ := hreached
  exact ⟨before, calls, hruns, hstep⟩

/-- In a run of a script whose calls are all statements, before every instruction and at the end of
the code, the stack holds the locals of the running function and the counted operands. Every local
of every active call has its declared type, also when a builtin halts the run or an instruction
fails. Such a run does not fail for want of operands or locals, or because of the type of a
local. -/
theorem height_of_isWellCalled {natives : List (Builtin ν)} {source : String}
    {tree : Script.Tree} {events events' events'' : Array Event}
    (hcompile : Script.compile natives source events = .ok program events')
    (htree : Script.tree source events = .ok tree events'')
    (hcalls : tree.isWellCalled = true) (output : Sink) :
    (∀ machine calls, Runs program output false machine calls →
      (machine.frames = [] → machine.stack.size = program.operandsAt machine.pc) ∧
      (∀ frame frames call rest, machine.frames = frame :: frames → calls = call :: rest →
        machine.stack.size =
          frame.base + call.func.locals.size + program.operandsAt machine.pc) ∧
      List.Forall₂ (fun frame call => call.func.LocalsIn machine.stack frame.base)
        machine.frames calls) ∧
    (∀ before calls outcome machine, Runs program output false before calls →
      before.step program = .stopped outcome machine →
      (outcome = .completed → machine = before) ∧
      machine.pc = before.pc ∧ machine.frames = before.frames ∧
      List.Forall₂ (fun frame call => call.func.LocalsIn machine.stack frame.base)
        machine.frames calls) ∧
    (∀ fuel machine, (start program output).run program fuel = .running machine →
      ∃ calls, Runs program output false machine calls) ∧
    (∀ fuel outcome machine, (start program output).run program fuel = .stopped outcome machine →
      ∃ before calls, Runs program output false before calls ∧
        before.step program = .stopped outcome machine) ∧
    ∀ fuel error machine,
      (start program output).run program fuel = .stopped (.failed error) machine →
      ∃ instruction, program.code[error.index]? = some instruction ∧
        machine.Supplied instruction error.fault := by
  obtain ⟨tree', _, bodies, htree', hlayout, hbodies⟩ := Script.layout_of_compile hcompile
  obtain ⟨rfl, -⟩ := EStateM.Result.ok.inj (htree.symm.trans htree')
  obtain ⟨hdefinitions, hmain⟩ := Bool.and_eq_true_iff.1 hcalls
  have htyped := fun compiled hmem => (hbodies compiled hmem).1
  have hfed : ∀ position instruction, program.code[position]? = some instruction →
      program.Fed position instruction := by
    intro position instruction hcode
    refine hlayout.fed ?_ hmain hcode
    intro compiled hmem
    obtain ⟨-, signature, locals, hdefined⟩ := hbodies compiled hmem
    exact List.all_eq_true.1 hdefinitions _ hdefined
  refine ⟨?_, ?_, ?_, ?_, ?_⟩
  · intro machine calls hruns
    have hshaped := hruns.shaped hlayout htyped hfed
    have hsize := hshaped.head.size
    refine ⟨?_, ?_, hshaped.locals hruns.within hfed fun _ _ => rfl⟩
    · intro hframes
      rw [hsize, floor_of_frames_nil hframes, Nat.zero_add]
    · rintro frame frames call rest hframes rfl
      rw [hsize, List.head?_cons, floor_some hframes]
  · intro before calls outcome machine hruns hstep
    have hkept := kept_of_step hstep
    refine ⟨?_, hkept.pc, hkept.frames, hruns.locals_of_stopped hlayout htyped hfed hstep⟩
    rintro rfl
    exact (completed_of_step hstep).2
  · intro fuel machine hrun
    have hreached := runs_of_run program output fuel
    rw [hrun] at hreached
    exact hreached
  · intro fuel outcome machine hrun
    exact runs_of_stopped hrun
  · intro fuel error machine hrun
    obtain ⟨before, calls, hruns, hstep⟩ := runs_of_stopped hrun
    obtain ⟨hindex, instruction, hcode, hfails⟩ := fails_of_step hstep
    have hshaped := (hruns.shaped hlayout htyped hfed).head
    refine ⟨instruction, hindex ▸ hcode, hfails.supplied ?_⟩
    exact hruns.ready hlayout htyped hshaped hcode (hfed _ _ hcode)

/-- Inside a call, right before a builtin halts the run and after it has. -/
theorem height_inside_call :
    ∃ (program : Program Native) (tree : Script.Tree) (machine halted : Machine Native)
      (call : Call Native) (frame : Frame) (events events' : Array Event),
      Script.compile Native.builtins
        "func f(a int) \x7b local s string done() \x7d f(1)" #[] = .ok program events ∧
      Script.tree "func f(a int) \x7b local s string done() \x7d f(1)" #[] =
        .ok tree events' ∧
      tree.isWellCalled = true ∧ Runs program {} false machine [call] ∧
      machine.frames = [frame] ∧ call.func.locals.size = 2 ∧ program.operandsAt machine.pc = 1 ∧
      machine.stack.size = frame.base + call.func.locals.size + program.operandsAt machine.pc ∧
      call.func.LocalsIn machine.stack frame.base ∧
      machine.step program = .stopped (.halted "done") halted ∧ halted.pc = machine.pc ∧
      halted.frames = [frame] ∧ halted.stack.size = frame.base + call.func.locals.size ∧
      call.func.LocalsIn halted.stack frame.base := by
  let locals : SlotTable := ⟨[⟨"a", .int⟩, ⟨"s", .string⟩]⟩
  let func : Func := ⟨"f", [.int], none, 0, locals⟩
  let done : Value Native := .builtin Native.done.builtin
  let program : Program Native :=
    { code := #[.loadGlobal "done", .invoke 0, .ret, .loadGlobal "f", .push (.int 1), .invoke 1]
      globals := ⟨[⟨"print_one", .builtin⟩, ⟨"print_all", .builtin⟩, ⟨"print_sum", .builtin⟩,
        ⟨"done", .builtin⟩, ⟨"f", .function⟩]⟩
      memory := #[.builtin Native.printOne.builtin, .builtin Native.printAll.builtin,
        .builtin Native.printSum.builtin, done, .function func]
      entry := 3 }
  let signature : Signature := { name := "f", params := [⟨"a", .int⟩], returns := none }
  let tree : Script.Tree :=
    { definitions := [.function signature locals [.declare "s" .string,
        .evaluate (.call (.variable (.global "done")) [])]]
      main := [.evaluate (.call (.variable (.global "f")) [.literal (.int 1)])] }
  let state (pc : Nat) (stack : Array (Value Native)) (frames : List Frame) : Machine Native :=
    { pc, stack, frames, memory := program.memory }
  let origin := state 5 #[.function func, .int 1] []
  let inside := state 1 #[.int 1, .str "", done] [⟨6, 0⟩]
  let halted : Machine Native :=
    { state 1 #[.int 1, .str ""] [⟨6, 0⟩] with
      output := { bytes := "done the program\n".toUTF8 } }
  have hcompile : Script.compile Native.builtins
      "func f(a int) \x7b local s string done() \x7d f(1)" #[] =
      .ok program #[.functionCompiled "f" 0 3 2, .mainCompiled 3 6] := by cbv
  have htree : Script.tree "func f(a int) \x7b local s string done() \x7d f(1)" #[] =
      .ok tree #[] := by cbv
  have hcallee : Runs program {} false (state 4 #[.function func] []) [] := .step .start rfl rfl
  have horigin : Runs program {} false origin [] := .step hcallee rfl rfl
  have hentered : Runs program {} false (state 0 #[.int 1, .str ""] [⟨6, 0⟩])
      [⟨origin, func⟩] := .call horigin rfl rfl rfl
  have hinside : Runs program {} false inside [⟨origin, func⟩] := .step hentered rfl rfl
  have hstep : inside.step program = .stopped (.halted "done") halted := by cbv
  obtain ⟨hstates, hstops, -⟩ := height_of_isWellCalled hcompile htree rfl {}
  obtain ⟨-, hsize, hlocals⟩ := hstates inside _ hinside
  obtain ⟨-, hpc, -, hkept⟩ := hstops inside _ _ halted hinside hstep
  obtain ⟨hlocal, -⟩ := List.forall₂_cons.1 hlocals
  obtain ⟨hlocal', -⟩ := List.forall₂_cons.1 hkept
  exact ⟨program, tree, inside, halted, _, ⟨6, 0⟩, _, _, hcompile, htree, rfl, hinside, rfl, rfl,
    rfl, hsize _ _ _ _ rfl rfl, hlocal, hstep, hpc, rfl, rfl, hlocal'⟩

/-- A builtin that halts the run has been taken off the stack, but the program counter is still at
the call. So no function of the program counter gives the height of the stack in all states of a
run, the last one included. -/
theorem height_not_determined_at_halt :
    ∃ (program : Program Native) (tree : Script.Tree) (events events' : Array Event),
      Script.compile Native.builtins "done()" #[] = .ok program events ∧
      Script.tree "done()" #[] = .ok tree events' ∧ tree.isWellCalled = true ∧
      ¬∃ height : Nat → Nat, ∀ fuel,
        ((start program {}).run program fuel).machine.frames = [] →
          ((start program {}).run program fuel).machine.stack.size =
            height ((start program {}).run program fuel).machine.pc := by
  let done : Value Native := .builtin Native.done.builtin
  let program : Program Native :=
    { code := #[.loadGlobal "done", .invoke 0]
      globals := ⟨[⟨"print_one", .builtin⟩, ⟨"print_all", .builtin⟩, ⟨"print_sum", .builtin⟩,
        ⟨"done", .builtin⟩]⟩
      memory := #[.builtin Native.printOne.builtin, .builtin Native.printAll.builtin,
        .builtin Native.printSum.builtin, done]
      entry := 0 }
  let tree : Script.Tree :=
    { definitions := [], main := [.evaluate (.call (.variable (.global "done")) [])] }
  let before : Machine Native := { pc := 1, stack := #[done], memory := program.memory }
  let halted : Machine Native :=
    { pc := 1, memory := program.memory, output := { bytes := "done the program\n".toUTF8 } }
  have hcompile : Script.compile Native.builtins "done()" #[] =
      .ok program #[.mainCompiled 0 2] := by cbv
  have htree : Script.tree "done()" #[] = .ok tree #[] := by cbv
  have hbefore : (start program {}).run program 1 = .running before := by cbv
  have hhalted : (start program {}).run program 2 = .stopped (.halted "done") halted := by cbv
  refine ⟨program, tree, _, _, hcompile, htree, rfl, ?_⟩
  rintro ⟨height, hheight⟩
  have hone := hheight 1
  have hzero := hheight 2
  rw [hbefore] at hone
  rw [hhalted] at hzero
  have hsame : before.stack.size = halted.stack.size := (hone rfl).trans (hzero rfl).symm
  cases hsame

end Machine

end StackScript
