import StackScript.Proofs.Interpreter
import StackScript.Proofs.OperandHeight

/-!
# Code does what its tree does

The machine runs the code of a tree as the interpreter runs the tree. If the interpreter comes to
an end, the machine gets behind the code with the same store, or stops in the same way; if a loop is
cut off, the machine is still running after at least as many steps as the loop had rounds.
-/

namespace StackScript

variable {ν : Type}

/-! ## Actions on stores -/

/-- The machine with the given store at a position. -/
def Store.machine (store : Store ν) (pc : Nat) (frames : List Frame) : Machine ν :=
  { pc, stack := store.stack, frames, memory := store.memory, output := store.output }

/-- What the interpreter sees of a machine. -/
def Machine.store (machine : Machine ν) : Store ν :=
  { stack := machine.stack, memory := machine.memory, output := machine.output }

/-- An action on a machine came out as a computation on its store did. -/
inductive Mirrored {α : Type} (pc : Nat) (frames : List Frame) :
    EStateM.Result Fault (Machine ν) α → EStateM.Result Break (Store ν) α → Prop
  | ok (result : α) (store : Store ν) :
      Mirrored pc frames (.ok result (store.machine pc frames)) (.ok result store)
  | failed (fault : Fault) (store : Store ν) :
      Mirrored pc frames (.error fault (store.machine pc frames)) (.error (.failed fault) store)

/-- An action on a machine does what a computation does on its store. -/
def Mirrors {α : Type} (frames : List Frame) (action : Action ν α) (computation : Eval ν α) :
    Prop :=
  ∀ pc store, Mirrored pc frames (action (store.machine pc frames)) (computation store)

/-- The action of the instruction that pushes a variable. -/
def Machine.loadPlace (program : Program ν) : Place → Action ν Unit
  | .slot index type => loadLocal index type
  | .global name => loadGlobal program name

/-- The action of the instruction that pops into a variable. -/
def Machine.storePlace (program : Program ν) : Place → Action ν Unit
  | .slot index type => setLocal index type
  | .global name => assignGlobal program name

/-- The context sees the globals of the program, and the locals of the innermost active call. -/
structure Context.Fits (program : Program ν) (frames : List Frame) (context : Context ν) :
    Prop where
  globals : context.globals = program.globals
  base : context.base = frames.head?.map (·.base)

namespace Mirrors

variable {α β : Type} {frames : List Frame}

theorem bind {action : Action ν α} {computation : Eval ν α} {action' : α → Action ν β}
    {computation' : α → Eval ν β} (h : Mirrors frames action computation)
    (h' : ∀ value, Mirrors frames (action' value) (computation' value)) :
    Mirrors frames (action >>= action') (computation >>= computation') := by
  intro pc store
  -- a failure of the first part is one of the whole, on either side
  have hfirst := h pc store
  simp only [Bind.bind, EStateM.bind]
  generalize action (store.machine pc frames) = result at hfirst
  generalize computation store = result' at hfirst
  cases hfirst with
  | ok value store => exact h' value pc store
  | failed fault store => exact .failed fault store

theorem gets {action : Machine ν → Action ν α} {computation : Store ν → Eval ν α}
    (h : ∀ pc store, Mirrored pc frames
      (action (store.machine pc frames) (store.machine pc frames)) (computation store store)) :
    Mirrors frames (get >>= action) (get >>= computation) :=
  h

theorem pure (value : α) :
    Mirrors frames (Pure.pure value : Action ν α) (Pure.pure value : Eval ν α) :=
  fun _ store => .ok value store

theorem fail (fault : Fault) :
    Mirrors frames (throw fault : Action ν α) (Eval.fail fault : Eval ν α) :=
  fun _ store => .failed fault store

theorem push (value : Value ν) : Mirrors frames (Machine.push value) (Eval.push value) := by
  intro pc store
  by_cases hroom : store.stack.size < stackLimit
  · simp only [Machine.push, Eval.push, Store.machine, hroom, ↓reduceIte]
    exact .ok () { store with stack := store.stack.push value }
  · simp only [Machine.push, Eval.push, Store.machine, hroom, ↓reduceIte]
    exact .failed .stackOverflow store

theorem pop : Mirrors frames (Machine.pop : Action ν (Value ν)) Eval.pop := by
  intro pc store
  cases htop : store.stack.back? with
  | none =>
      simp only [Machine.pop, Eval.pop, Store.machine, htop]
      exact .failed .stackUnderflow store
  | some value =>
      simp only [Machine.pop, Eval.pop, Store.machine, htop]
      exact .ok value { store with stack := store.stack.pop }

theorem popInt : Mirrors frames (Machine.popInt : Action ν Int64) Eval.popInt := by
  refine .bind .pop fun value => ?_
  cases value with
  | int n => exact .pure n
  | str | builtin | function => exact .fail _

theorem checkTag (expected : TypeTag) (value : Value ν) :
    Mirrors frames (Machine.checkTag expected value) (Eval.checkTag expected value) := by
  unfold Machine.checkTag Eval.checkTag
  by_cases htag : value.tag = expected
  · rw [if_pos htag, if_pos htag]
    exact .pure ()
  · rw [if_neg htag, if_neg htag]
    exact .fail _

theorem pushAll (values : List (Value ν)) :
    Mirrors frames (Machine.pushAll values) (Eval.pushAll values) := by
  induction values with
  | nil => exact .pure ()
  | cons first rest ih => exact .bind (.push first) fun _ => ih

theorem operate (operator : Operator) :
    Mirrors frames (Machine.binary operator : Action ν Unit) (Eval.operate operator) := by
  refine .bind .popInt fun right => .bind .popInt fun left => ?_
  cases operator.apply left right with
  | ok result => exact .push (.int result)
  | error fault => exact .fail fault

variable {program : Program ν} {context : Context ν}

theorem globalCell (h : context.Fits program frames) (name : String) :
    Mirrors frames (Machine.globalSlot program name) (context.globalCell name) := by
  intro pc store
  cases hslot : program.globals.slot? name with
  | none =>
      simp only [Machine.globalSlot, Context.globalCell, h.globals, hslot]
      exact .failed _ store
  | some cell =>
      simp only [Machine.globalSlot, Context.globalCell, h.globals, hslot]
      by_cases hcell : cell < store.memory.size
      · simp only [Store.machine, hcell, ↓reduceIte]
        exact .ok cell store
      · simp only [Store.machine, hcell, ↓reduceIte]
        exact .failed _ store

theorem localCell (h : context.Fits program frames) (slot : Nat) :
    Mirrors frames (Machine.localCell slot) (context.localCell slot) := by
  intro pc store
  cases frames with
  | nil =>
      simp only [Machine.localCell, Context.localCell, h.base]
      exact .failed _ store
  | cons frame frames =>
      simp only [Machine.localCell, Context.localCell, h.base, List.head?_cons, Option.map_some]
      cases hcell : store.stack[frame.base + slot]? with
      | none =>
          simp only [Store.machine, hcell]
          exact .failed _ store
      | some value =>
          simp only [Store.machine, hcell]
          exact .ok _ store

theorem changes {change : Machine ν → Machine ν} {change' : Store ν → Store ν}
    (h : ∀ pc store, change (store.machine pc frames) = (change' store).machine pc frames) :
    Mirrors frames (modify change : Action ν Unit) (modify change' : Eval ν Unit) := by
  intro pc store
  simp only [modify_eq, h]
  exact .ok () (change' store)

theorem load (h : context.Fits program frames) (place : Place) :
    Mirrors frames (Machine.loadPlace program place) (context.load place) := by
  cases place with
  | slot index type =>
      refine .bind (.localCell h index) fun cell => ?_
      exact .bind (.checkTag type cell.2) fun _ => .push cell.2
  | global name =>
      refine .gets fun pc store => ?_
      have hheld : (store.machine pc frames).global? program name =
          (context.globals.slot? name).bind (store.memory[·]?) := by
        rw [h.globals]
        rfl
      rw [hheld]
      cases (context.globals.slot? name).bind (store.memory[·]?) with
      | none => exact .failed _ store
      | some value => exact Mirrors.push value pc store

theorem assign (h : context.Fits program frames) (place : Place) :
    Mirrors frames (Machine.storePlace program place) (context.assign place) := by
  cases place with
  | slot index type =>
      refine .bind .pop fun value => .bind (.localCell h index) fun cell => ?_
      exact .bind (.checkTag type cell.2) fun _ => .bind (.checkTag type value) fun _ =>
        .changes fun _ _ => rfl
  | global name =>
      exact .bind .pop fun value => .bind (.globalCell h name) fun cell => .changes fun _ _ => rfl

end Mirrors

/-! ## Runs that carry an evaluation out -/

section Carries

variable [Host ν] {α β : Type} {program : Program ν} {rounds : Nat} {machine machine' : Machine ν}
  {next : α → Store ν → Machine ν → Prop} {next' : β → Store ν → Machine ν → Prop}

/-- The function values of a machine are functions of the program. -/
def Machine.Known (program : Program ν) (machine : Machine ν) : Prop :=
  ∀ func, machine.Holds func → func ∈ program.functions

theorem Machine.Known.run (h : machine.Known program) {fuel : Nat}
    (hrun : machine.run program fuel = .running machine') : machine'.Known program := by
  have hstep : ∀ before after : Machine ν, before.Known program →
      before.step program = .running after → after.Known program := by
    intro before after hknown hstep func hfunc
    apply hknown func
    apply holds_of_step
    rwa [hstep]
  have hinvariant := run_induction hstep h fuel
  rwa [hrun] at hinvariant

/-- What a machine does when an evaluation has a result: it comes to a state that `next` describes,
it stops in the same way with the same store, or it has not stopped after a number of steps. -/
def Carries (program : Program ν) (rounds : Nat) (machine : Machine ν)
    (next : α → Store ν → Machine ν → Prop) : EStateM.Result Break (Store ν) α → Prop
  | .ok result store =>
      ∃ fuel after, machine.run program fuel = .running after ∧ next result store after
  | .error (.halted name) store =>
      ∃ fuel after, machine.run program fuel = .stopped (.halted name) after ∧
        after.store = store
  | .error (.failed fault) store =>
      ∃ fuel index after, machine.run program fuel = .stopped (.failed ⟨index, fault⟩) after ∧
        after.store = store
  | .error .exhausted _ =>
      ∃ fuel after, machine.run program fuel = .running after ∧ rounds ≤ fuel

namespace Carries

theorem mono {rounds' : Nat} {result : EStateM.Result Break (Store ν) α}
    (h : Carries program rounds machine next result) (hle : rounds' ≤ rounds) :
    Carries program rounds' machine next result := by
  match result, h with
  | .ok _ _, h | .error (.halted _) _, h | .error (.failed _) _, h => exact h
  | .error .exhausted _, ⟨fuel, after, hrun, hrounds⟩ =>
      exact ⟨fuel, after, hrun, Nat.le_trans hle hrounds⟩

/-- Steps before a run add to it. -/
theorem after_run {fuel : Nat} {result : EStateM.Result Break (Store ν) α}
    (hrun : machine.run program fuel = .running machine')
    (h : Carries program rounds machine' next result) :
    Carries program (fuel + rounds) machine next result := by
  have hadd : ∀ more, machine.run program (fuel + more) = machine'.run program more := by
    intro more
    rw [Machine.run_add, hrun]
  match result, h with
  | .ok _ _, ⟨more, after, hmore, hnext⟩ =>
      exact ⟨fuel + more, after, (hadd more).trans hmore, hnext⟩
  | .error (.halted _) _, ⟨more, after, hmore, hstore⟩ =>
      exact ⟨fuel + more, after, (hadd more).trans hmore, hstore⟩
  | .error (.failed _) _, ⟨more, index, after, hmore, hstore⟩ =>
      exact ⟨fuel + more, index, after, (hadd more).trans hmore, hstore⟩
  | .error .exhausted _, ⟨more, after, hmore, hrounds⟩ =>
      exact ⟨fuel + more, after, (hadd more).trans hmore, Nat.add_le_add_left hrounds fuel⟩

theorem bind {first : Eval ν α} {rest : α → Eval ν β} {store : Store ν}
    (hknown : machine.Known program) (h : Carries program rounds machine next (first store))
    (h' : ∀ value store' after, first store = .ok value store' → next value store' after →
      after.Known program → Carries program rounds after next' (rest value store')) :
    Carries program rounds machine next' ((first >>= rest) store) := by
  simp only [Bind.bind, EStateM.bind]
  cases hfirst : first store with
  | ok value store' =>
      rw [hfirst] at h
      obtain ⟨fuel, after, hrun, hnext⟩ := h
      -- the run of the first part comes before the run of the rest
      have hrest := h' value store' after hfirst hnext (hknown.run hrun)
      exact (hrest.after_run hrun).mono (Nat.le_add_left _ _)
  | error reason store' =>
      rw [hfirst] at h
      cases reason <;> exact h

/-- An evaluation that is already where it should be needs no step. -/
theorem pure {value : α} {store : Store ν} (h : next value store machine) :
    Carries program rounds machine next ((Pure.pure value : Eval ν α) store) :=
  ⟨0, machine, rfl, h⟩

end Carries

theorem Machine.run_one (h : machine.step program = .running machine') :
    machine.run program 1 = .running machine' := by
  simp only [run, h]

theorem Machine.run_one_stopped {outcome : Outcome}
    (h : machine.step program = .stopped outcome machine') :
    machine.run program 1 = .stopped outcome machine' := by
  simp only [run, h]

theorem Machine.step_eq_advance {instruction : Instruction}
    (h : program.code[machine.pc]? = some instruction) :
    machine.step program = machine.advance program instruction := by
  simp only [step, h]

/-- The machine stands at a position with the store that an evaluation left. -/
def Arrives (pc : Nat) (frames : List Frame) (_ : α) (store : Store ν) (machine : Machine ν) :
    Prop :=
  machine = store.machine pc frames

variable {pc : Nat} {frames : List Frame} {instruction : Instruction}

/-- An instruction that goes on to the next one carries out what its action mirrors. -/
theorem Mirrors.carries {action : Action ν α} {computation : Eval ν α}
    (h : Mirrors frames action computation) (hcode : program.code[pc]? = some instruction)
    (hperform : Machine.perform program instruction = (do let _ ← action; return .next))
    (store : Store ν) :
    Carries program rounds (store.machine pc frames) (Arrives (pc + 1) frames)
      (computation store) := by
  have hstep : (store.machine pc frames).step program = _ := Machine.step_eq_advance hcode
  have haction := h pc store
  simp only [Machine.advance, hperform, Bind.bind, EStateM.bind] at hstep
  generalize action (store.machine pc frames) = result at haction hstep
  generalize computation store = result' at haction ⊢
  cases haction with
  | ok value store' => exact ⟨1, _, Machine.run_one hstep, rfl⟩
  | failed fault store' => exact ⟨1, pc, _, Machine.run_one_stopped hstep, rfl⟩

/-- A conditional jump takes the test from the stack and goes on where the test says. -/
theorem carries_jumpIfZero {target : Nat} (hcode : program.code[pc]? = some (.jumpIfZero target))
    (store : Store ν) :
    Carries program rounds (store.machine pc frames)
      (fun n store' after => after = store'.machine (if n = 0 then target else pc + 1) frames)
      (Eval.popInt store) := by
  have hstep : (store.machine pc frames).step program = _ := Machine.step_eq_advance hcode
  have haction : Mirrored pc frames _ _ := Mirrors.popInt pc store
  simp only [Machine.advance, Machine.perform, Bind.bind, EStateM.bind] at hstep
  generalize Machine.popInt (store.machine pc frames) = result at haction hstep
  generalize Eval.popInt store = result' at haction ⊢
  cases haction with
  | ok n store' =>
      by_cases hzero : n = 0
      · simp only [hzero, ↓reduceIte] at hstep
        refine ⟨1, _, Machine.run_one hstep, ?_⟩
        simp only [hzero, ↓reduceIte]
        rfl
      · simp only [hzero, ↓reduceIte] at hstep
        refine ⟨1, _, Machine.run_one hstep, ?_⟩
        simp only [hzero, ↓reduceIte]
        rfl
  | failed fault store' => exact ⟨1, pc, _, Machine.run_one_stopped hstep, rfl⟩

/-- The end of a loop gets back to its start if there is room for one value. -/
theorem run_back {start : Nat} {store : Store ν}
    (hcode : program.Holds pc [.push (.int 0), .jumpIfZero start])
    (hroom : store.stack.size < stackLimit) :
    (store.machine pc frames).run program 2 = .running (store.machine start frames) := by
  let pushed : Store ν := { store with stack := store.stack.push (.int 0) }
  have hfirst : (store.machine pc frames).step program =
      .running (pushed.machine (pc + 1) frames) := by
    have hpush : program.code[(store.machine pc frames).pc]? = some (.push (.int 0)) := hcode.head
    rw [Machine.step_eq_advance hpush]
    simp only [Machine.advance, Machine.perform, Bind.bind, EStateM.bind, Machine.push,
      Store.machine, hroom, ↓reduceIte]
    rfl
  have hsecond : (pushed.machine (pc + 1) frames).step program =
      .running (store.machine start frames) := by
    have hjump : program.code[(pushed.machine (pc + 1) frames).pc]? = some (.jumpIfZero start) :=
      hcode.tail.head
    rw [Machine.step_eq_advance hjump]
    simp [Machine.advance, Machine.perform, Machine.popInt, Machine.pop, Bind.bind, EStateM.bind,
      Pure.pure, EStateM.pure, Store.machine, pushed]
  simp only [Machine.run, hfirst, hsecond]

/-! ## Trees -/

/-- A context in which the machine can carry trees out: it sees what the machine sees, calls are
carried out, and a loop may begin the given number of rounds. -/
structure Context.Runs (program : Program ν) (rounds : Nat) (frames : List Frame)
    (context : Context ν) : Prop where
  fits : context.Fits program frames
  calls : ∀ arguments pc store, program.code[pc]? = some (.invoke arguments) →
    (store.machine pc frames).Known program →
      Carries program rounds (store.machine pc frames) (Arrives (pc + 1) frames)
        (context.call arguments store)
  raises : ∀ arguments, (context.call arguments).Raises 0 (arguments + 1)
  rounds_eq : context.rounds = rounds

variable {context : Context ν}

mutual

theorem Expr.eval_carries (h : context.Runs program rounds frames) :
    ∀ (expression : Expr) {pc : Nat} {store : Store ν}, program.Holds pc expression.code →
      (store.machine pc frames).Known program →
        Carries program rounds (store.machine pc frames) (Arrives (pc + expression.size) frames)
          (expression.eval context store)
  | .literal value, pc, store, hcode, _ => by
      exact (Mirrors.push (.ofLiteral value)).carries hcode.head rfl store
  | .variable place, pc, store, hcode, _ => by
      refine (Mirrors.load h.fits place).carries hcode.head ?_ store
      cases place <;> rfl
  | .call callee arguments, pc, store, hcode, hknown => by
      -- the code of the callee, of the arguments and the call stand one after the other
      have harguments := hcode.right.left
      have hinvoke := hcode.right.right.head
      rw [Expr.length_codeAll] at hinvoke
      rw [Expr.length_code] at harguments hinvoke
      rw [Expr.eval, Expr.size, ← Nat.add_assoc, ← Nat.add_assoc]
      refine .bind hknown (Expr.eval_carries h callee hcode.left hknown) ?_
      rintro _ store _ _ rfl hknown
      refine .bind hknown (Expr.evalAll_carries h arguments harguments hknown) ?_
      rintro _ store _ _ rfl hknown
      exact h.calls _ _ _ hinvoke hknown
  | .binary left operator right, pc, store, hcode, hknown => by
      have hright := hcode.right.left
      have hbinary := hcode.right.right.head
      rw [Expr.length_code] at hright
      rw [Expr.length_code, Expr.length_code] at hbinary
      rw [Expr.eval, Expr.size, ← Nat.add_assoc, ← Nat.add_assoc]
      refine .bind hknown (Expr.eval_carries h left hcode.left hknown) ?_
      rintro _ store _ _ rfl hknown
      refine .bind hknown (Expr.eval_carries h right hright hknown) ?_
      rintro _ store _ _ rfl hknown
      exact (Mirrors.operate operator).carries hbinary rfl store

theorem Expr.evalAll_carries (h : context.Runs program rounds frames) :
    ∀ (list : List Expr) {pc : Nat} {store : Store ν}, program.Holds pc (Expr.codeAll list) →
      (store.machine pc frames).Known program →
        Carries program rounds (store.machine pc frames) (Arrives (pc + Expr.sizeAll list) frames)
          (Expr.evalAll context list store)
  | [], pc, store, _, _ => .pure rfl
  | first :: rest, pc, store, hcode, hknown => by
      have hrest := hcode.right
      rw [Expr.length_code] at hrest
      rw [Expr.evalAll, Expr.sizeAll, ← Nat.add_assoc]
      refine .bind hknown (Expr.eval_carries h first hcode.left hknown) ?_
      rintro _ store _ _ rfl hknown
      exact Expr.evalAll_carries h rest hrest hknown

end

/-- Where the machine stands after a statement or a block: behind it, or at a return. -/
def Ended (program : Program ν) (pc : Nat) (frames : List Frame) :
    Ending → Store ν → Machine ν → Prop
  | .finished, store, machine => machine = store.machine pc frames
  | .returned, store, machine =>
      ∃ position, machine = store.machine position frames ∧
        program.code[position]? = some .ret

/-- Going round a loop takes steps, so a loop that is cut off has run for as many steps as it had
rounds. The induction is on the rounds that are left. -/
theorem Eval.loop_carries (h : context.Runs program rounds frames) {test : Expr} {body : Block}
    {start back stop : Nat} (htest : program.Holds start test.code)
    (hjump : program.code[start + test.size]? = some (.jumpIfZero stop))
    (hbody : ∀ store, (store.machine (start + test.size + 1) frames).Known program →
      Carries program rounds (store.machine (start + test.size + 1) frames)
        (Ended program back frames) (Block.exec context body store))
    (hback : program.Holds back [.push (.int 0), .jumpIfZero start]) {left : Nat}
    (hleft : left ≤ rounds) {store : Store ν}
    (hknown : (store.machine start frames).Known program) :
    Carries program left (store.machine start frames) (Ended program stop frames)
      (Eval.loop (test.eval context) (Block.exec context body) left store) := by
  induction left generalizing store with
  | zero => exact ⟨0, _, rfl, Nat.le_refl 0⟩
  | succ left ih =>
      rw [Eval.loop]
      refine .bind hknown ((test.eval_carries h htest hknown).mono hleft) ?_
      rintro _ tested _ heval rfl hknown
      refine .bind hknown (carries_jumpIfZero hjump tested) ?_
      rintro n popped _ hpop rfl hknown
      by_cases hzero : n = 0
      · simp only [hzero, ↓reduceIte]
        exact .pure rfl
      · simp only [hzero, ↓reduceIte] at hknown ⊢
        refine .bind hknown ((hbody popped hknown).mono hleft) ?_
        rintro ending ended after hexec hended hknown
        cases ending with
        | returned => exact .pure hended
        | finished =>
            obtain rfl : after = ended.machine back frames := hended
            -- the test had room for a value, and neither the test nor the body leaves one
            have hroom : ended.stack.size < stackLimit := by
              have hstart := test.room_of_eval heval
              have htested := (test.eval_raises h.raises).atMostOne _ _ _ heval
              have hpopped := Eval.Raises.popInt _ _ _ hpop
              have hended := Block.exec_raises h.raises body _ _ _ hexec
              omega
            have hrun : (ended.machine back frames).run program 2 = _ := run_back hback hroom
            have hround := ih (Nat.le_of_succ_le hleft) (hknown.run hrun)
            exact (hround.after_run hrun).mono (by omega)

mutual

theorem Stmt.exec_carries (h : context.Runs program rounds frames) :
    ∀ (statement : Stmt) {pc : Nat} {store : Store ν}, program.Holds pc (statement.code pc) →
      (store.machine pc frames).Known program →
        Carries program rounds (store.machine pc frames)
          (Ended program (pc + statement.size) frames) (statement.exec context store)
  | .skip, pc, store, _, _ | .declare _ _, pc, store, _, _ => .pure rfl
  | .ret, pc, store, hcode, _ => .pure ⟨pc, rfl, hcode.head⟩
  | .branch test body, pc, store, hcode, hknown => by
      have hjump := hcode.right.head
      have hbody := hcode.right.tail
      rw [Expr.length_code] at hjump hbody
      have hsize : pc + (Stmt.branch test body).size = pc + test.size + 1 + Block.size body := by
        rw [Stmt.size]
        omega
      rw [Stmt.exec, hsize]
      refine .bind hknown (test.eval_carries h hcode.left hknown) ?_
      rintro _ tested _ _ rfl hknown
      refine .bind hknown (carries_jumpIfZero hjump tested) ?_
      rintro n popped _ _ rfl hknown
      -- the jump goes right behind the body, and that is where the body ends too
      by_cases hzero : n = 0
      · simp only [hzero, ↓reduceIte]
        exact .pure rfl
      · simp only [hzero, ↓reduceIte] at hknown ⊢
        exact Block.exec_carries h body hbody hknown
  | .loop test body, pc, store, hcode, hknown => by
      have hjump := hcode.right.head
      have hbody := hcode.right.tail.left
      have hback := hcode.right.tail.right
      rw [Block.length_code] at hback
      rw [Expr.length_code] at hjump hbody hback
      have hsize : pc + (Stmt.loop test body).size = pc + test.size + 1 + Block.size body + 2 := by
        rw [Stmt.size]
        omega
      rw [Stmt.exec, hsize, h.rounds_eq]
      refine Eval.loop_carries h hcode.left hjump ?_ hback (Nat.le_refl rounds) hknown
      intro store hknown
      exact Block.exec_carries h body hbody hknown
  | .assign target value, pc, store, hcode, hknown => by
      have hstore := hcode.right.head
      rw [Expr.length_code] at hstore
      rw [Stmt.exec, Stmt.size]
      refine .bind hknown (value.eval_carries h hcode.left hknown) ?_
      rintro _ evaluated _ _ rfl hknown
      have hassign : Machine.perform program target.store =
          (do let _ ← Machine.storePlace program target; return .next) := by cases target <;> rfl
      refine .bind hknown ((Mirrors.assign h.fits target).carries hstore hassign evaluated) ?_
      rintro _ assigned _ _ rfl hknown
      exact .pure rfl
  | .evaluate term, pc, store, hcode, hknown => by
      have hdrop := hcode.right
      rw [Expr.length_code] at hdrop
      rw [Stmt.exec, Stmt.size]
      refine .bind hknown (term.eval_carries h hcode.left hknown) ?_
      rintro _ evaluated _ _ rfl hknown
      cases hcall : term.isCall with
      | true =>
          simp only [↓reduceIte]
          exact .pure rfl
      | false =>
          simp only [hcall, Bool.false_eq_true, ↓reduceIte] at hdrop ⊢
          refine .bind hknown (Mirrors.pop.carries hdrop.head rfl evaluated) ?_
          rintro _ dropped _ _ rfl hknown
          exact .pure rfl

/-- The machine carries a block out on the code of the block. -/
theorem Block.exec_carries (h : context.Runs program rounds frames) :
    ∀ (block : Block) {pc : Nat} {store : Store ν}, program.Holds pc (Block.code pc block) →
      (store.machine pc frames).Known program →
        Carries program rounds (store.machine pc frames)
          (Ended program (pc + Block.size block) frames) (Block.exec context block store)
  | [], pc, store, _, _ => .pure rfl
  | first :: rest, pc, store, hcode, hknown => by
      have hrest := hcode.right
      rw [Stmt.length_code] at hrest
      rw [Block.exec, Block.size, ← Nat.add_assoc]
      refine .bind hknown (Stmt.exec_carries h first hcode.left hknown) ?_
      rintro ending store after _ hended hknown
      cases ending with
      | returned => exact .pure hended
      | finished =>
          obtain rfl : after = store.machine (pc + first.size) frames := hended
          exact Block.exec_carries h rest hrest hknown

end

/-! ## Calls -/

/-- What a function body does is carried out from the function's entry, with a frame for the call;
it goes on where the frame says. No frame is free if there is no way to run a body. -/
def Enters (program : Program ν) (rounds : Nat) (frames : List Frame) :
    Option (Func → Nat → Eval ν Unit) → Prop
  | none => callLimit ≤ frames.length
  | some body => frames.length < callLimit ∧ ∀ func base resume store, func ∈ program.functions →
      (store.machine func.entry (⟨resume, base⟩ :: frames)).Known program →
        Carries program rounds (store.machine func.entry (⟨resume, base⟩ :: frames))
          (Arrives resume frames) (body func base store)

theorem carries_failed {fault : Fault} {store : Store ν}
    (hcode : program.code[pc]? = some instruction)
    (hperform : Machine.perform program instruction (store.machine pc frames) =
      .error fault (store.machine pc frames)) :
    Carries program rounds (store.machine pc frames) next ((Eval.fail fault : Eval ν α) store) := by
  have hstep : (store.machine pc frames).step program = _ := Machine.step_eq_advance hcode
  simp only [Machine.advance, hperform] at hstep
  exact ⟨1, pc, _, Machine.run_one_stopped hstep, rfl⟩

theorem carries_builtin {builtin : Builtin ν} {place : Nat} {store : Store ν}
    (hcode : program.code[pc]? = some instruction)
    (hperform : Machine.perform program instruction (store.machine pc frames) =
      Machine.callBuiltin builtin place (store.machine pc frames)) :
    Carries program rounds (store.machine pc frames) (Arrives (pc + 1) frames)
      ((do Eval.truncate place; Eval.native builtin (store.stack.toList.drop (place + 1)) :
        Eval ν Unit) store) := by
  have hstep : (store.machine pc frames).step program = _ := Machine.step_eq_advance hcode
  simp only [Machine.advance, hperform, Machine.callBuiltin] at hstep
  have heval : (do Eval.truncate place; Eval.native builtin (store.stack.toList.drop (place + 1)) :
        Eval ν Unit) store =
      Eval.native builtin (store.stack.toList.drop (place + 1))
        { store with stack := store.stack.take place } := rfl
  rw [heval]
  have habove : (store.machine pc frames).above place = store.stack.toList.drop (place + 1) := rfl
  have houtput : (store.machine pc frames).output = store.output := rfl
  rw [habove, houtput] at hstep
  simp only [Eval.native]
  cases hcall : Host.call builtin.native (store.stack.toList.drop (place + 1)) store.output with
  | ok flow output =>
      rw [hcall] at hstep
      cases flow with
      | proceed => exact ⟨1, _, Machine.run_one hstep, rfl⟩
      | halt => exact ⟨1, _, Machine.run_one_stopped hstep, rfl⟩
  | error error output =>
      rw [hcall] at hstep
      exact ⟨1, _, _, Machine.run_one_stopped hstep, rfl⟩

/-- What an instruction that calls a value at a place on the stack does. -/
def Machine.callValue (place : Nat) : Value ν → Action ν Signal
  | .builtin builtin => callBuiltin builtin place
  | .function func => callFunction func place
  | other => throw (.notInvocable other.tag)

theorem Machine.invoke_eq {arguments : Nat} {value : Value ν}
    (h : machine.callee? arguments = some value) :
    perform program (.invoke arguments) machine =
      callValue (machine.stack.size - (arguments + 1)) value machine := by
  rw [perform, invoke, get_bind, h]
  cases value <;> rfl

omit [Host ν] in
/-- A function that can be called gets its arguments as locals and the other locals behind them,
and a frame for the call is pushed. -/
theorem Machine.callFunction_eq {func : Func} {place : Nat} {moved : Machine ν}
    (hcheck : checkArguments func (machine.above place) = .ok ())
    (hdepth : machine.frames.length < callLimit)
    (hmoved : { machine with stack := machine.stack.take place ++ (machine.above place).toArray } =
      moved) :
    callFunction func place machine =
      (do
        pushAll func.extraLocals
        modify fun machine => { machine with frames := ⟨machine.pc + 1, place⟩ :: machine.frames }
        return Signal.jump func.entry : Action ν Signal) moved := by
  subst hmoved
  rw [callFunction, get_bind]
  simp only [hcheck, Nat.not_le.2 hdepth, ↓reduceIte]
  rfl

/-- A function that can be called is entered: its locals are put on the stack and a frame is
pushed. -/
theorem carries_enterFunction {func : Func} {place : Nat} {store : Store ν}
    (hcode : program.code[pc]? = some instruction)
    (hperform : Machine.perform program instruction (store.machine pc frames) =
      Machine.callFunction func place (store.machine pc frames))
    (hcheck : Machine.checkArguments func (store.stack.toList.drop (place + 1)) = .ok ())
    (hdepth : frames.length < callLimit) :
    Carries program rounds (store.machine pc frames)
      (Arrives func.entry (⟨pc + 1, place⟩ :: frames))
      (Eval.enterFunction func place (store.stack.toList.drop (place + 1)) store) := by
  -- the arguments have moved down into the place of the function, and a push may still overflow
  let moved : Store ν :=
    { store with stack := store.stack.take place ++ (store.stack.toList.drop (place + 1)).toArray }
  have hmoved : Mirrored pc frames (Machine.pushAll func.extraLocals (moved.machine pc frames))
      (Eval.enterFunction func place (store.stack.toList.drop (place + 1)) store) :=
    Mirrors.pushAll func.extraLocals pc moved
  have hcall : Machine.callFunction func place (store.machine pc frames) = _ :=
    Machine.callFunction_eq hcheck hdepth (show _ = moved.machine pc frames from rfl)
  have hstep : (store.machine pc frames).step program = _ := Machine.step_eq_advance hcode
  simp only [Machine.advance, hperform, hcall, Bind.bind, EStateM.bind] at hstep
  generalize Machine.pushAll func.extraLocals (moved.machine pc frames) = result at hmoved hstep
  generalize Eval.enterFunction func place _ store = result' at hmoved ⊢
  cases hmoved with
  | ok value store' => exact ⟨1, _, Machine.run_one hstep, rfl⟩
  | failed fault store' => exact ⟨1, pc, _, Machine.run_one_stopped hstep, rfl⟩

theorem carries_callValue {body : Option (Func → Nat → Eval ν Unit)}
    (h : Enters program rounds frames body) {place : Nat} {value : Value ν} {store : Store ν}
    (hknown : (store.machine pc frames).Known program) (hheld : value ∈ store.stack)
    (hcode : program.code[pc]? = some instruction)
    (hperform : Machine.perform program instruction (store.machine pc frames) =
      Machine.callValue place value (store.machine pc frames)) :
    Carries program rounds (store.machine pc frames) (Arrives (pc + 1) frames)
      (Eval.callValue body place (store.stack.toList.drop (place + 1)) value store) := by
  cases value with
  | int | str => exact carries_failed hcode hperform
  | builtin builtin => exact carries_builtin hcode hperform
  | function func =>
      have habove : (store.machine pc frames).above place = store.stack.toList.drop (place + 1) :=
        rfl
      simp only [Eval.callValue]
      cases hcheck : Machine.checkArguments func (store.stack.toList.drop (place + 1)) with
      | error fault =>
          refine carries_failed hcode (hperform.trans ?_)
          rw [Machine.callValue, Machine.callFunction, get_bind]
          simp only [habove, hcheck]
          rfl
      | ok =>
          cases body with
          | none =>
              have hdepth : callLimit ≤ (store.machine pc frames).frames.length := h
              refine carries_failed hcode (hperform.trans ?_)
              rw [Machine.callValue, Machine.callFunction, get_bind]
              simp only [habove, hcheck, hdepth, ↓reduceIte]
              rfl
          | some body =>
              -- a frame is free: the step enters the function and its body does the rest
              obtain ⟨hdepth, hbody⟩ := h
              have hfunc : func ∈ program.functions := hknown func (.inl hheld)
              refine .bind hknown (carries_enterFunction hcode hperform hcheck hdepth) ?_
              rintro _ entered _ _ rfl hentered
              exact hbody func place (pc + 1) entered hfunc hentered

/-- The machine carries a call out: it gets behind the instruction once the called function has
returned. -/
theorem Eval.call_carries {body : Option (Func → Nat → Eval ν Unit)}
    (h : Enters program rounds frames body) {arguments : Nat} {store : Store ν}
    (hcode : program.code[pc]? = some (.invoke arguments))
    (hknown : (store.machine pc frames).Known program) :
    Carries program rounds (store.machine pc frames) (Arrives (pc + 1) frames)
      (Eval.call body arguments store) := by
  have hsame : (store.machine pc frames).callee? arguments = store.callee? arguments := rfl
  rw [Eval.call, get_bind]
  cases hcallee : store.callee? arguments with
  | none =>
      refine carries_failed hcode ?_
      rw [Machine.perform, Machine.invoke, get_bind, hsame, hcallee]
      rfl
  | some value =>
      rw [hcallee] at hsame
      have hheld := (Machine.callee?_eq_some hsame).2
      exact carries_callValue h hknown hheld hcode (Machine.invoke_eq hsame)

/-- A return cuts the stack down to the base of the innermost call and goes on behind the call. -/
theorem carries_return {resume base : Nat} (hcode : program.code[pc]? = some .ret)
    (store : Store ν) :
    Carries program rounds (store.machine pc (⟨resume, base⟩ :: frames)) (Arrives resume frames)
      (Eval.truncate base store) := by
  have hstep : (store.machine pc (⟨resume, base⟩ :: frames)).step program = _ :=
    Machine.step_eq_advance hcode
  exact ⟨1, _, Machine.run_one hstep, rfl⟩

variable {bodies : List Compiled} {main : Block} {bodyOf : Func → Block}

/-- The machine carries out calls to any depth. The induction is on the calls that may still become
active: a body is run with one less. -/
theorem Eval.callAt_carries (h : program.Layout bodies main)
    (hbodyOf : ∀ compiled ∈ bodies, bodyOf compiled.func = compiled.body) {depth arguments : Nat}
    (hdepth : depth + frames.length = callLimit) {store : Store ν}
    (hcode : program.code[pc]? = some (.invoke arguments))
    (hknown : (store.machine pc frames).Known program) :
    Carries program rounds (store.machine pc frames) (Arrives (pc + 1) frames)
      (Eval.callAt program.globals bodyOf rounds depth arguments store) := by
  induction depth generalizing frames pc arguments store with
  | zero =>
      have hfull : Enters program rounds frames none := by
        change callLimit ≤ frames.length
        omega
      exact Eval.call_carries hfull hcode hknown
  | succ depth ih =>
      rw [Eval.callAt]
      refine Eval.call_carries ?_ hcode hknown
      refine ⟨by omega, ?_⟩
      intro func base resume store hfunc hknown
      obtain ⟨compiled, hmem, rfl⟩ := h.mem_functions.1 hfunc
      have hbody := h.holds_body hmem
      have hruns : Context.Runs program rounds (⟨resume, base⟩ :: frames)
          { globals := program.globals, base := some base,
            call := Eval.callAt program.globals bodyOf rounds depth, rounds } :=
        { fits := ⟨rfl, rfl⟩
          calls := fun _ _ _ hcode hknown => ih (by simp; omega) hcode hknown
          raises := .callAt _ _ _ _
          rounds_eq := rfl }
      rw [Eval.body, hbodyOf compiled hmem]
      refine .bind hknown (Block.exec_carries hruns compiled.body hbody.left hknown) ?_
      intro ending store after _ hended hknown
      -- both a body that returns and one that comes to its end stand at a return now
      have hreturn : ∃ position, after = store.machine position (⟨resume, base⟩ :: frames) ∧
          program.code[position]? = some .ret := by
        cases ending with
        | returned => exact hended
        | finished =>
            have hlast := hbody.right.head
            rw [Block.length_code] at hlast
            exact ⟨_, hended, hlast⟩
      obtain ⟨position, rfl, hret⟩ := hreturn
      exact carries_return hret store

/-- The machine carries a program out from its entry. -/
theorem Eval.run_carries (h : program.Layout bodies main)
    (hbodyOf : ∀ compiled ∈ bodies, bodyOf compiled.func = compiled.body) {store : Store ν}
    (hknown : (store.machine program.entry []).Known program) :
    Carries program rounds (store.machine program.entry []) (Arrives program.code.size [])
      (Eval.run program.globals bodyOf rounds main store) := by
  have hruns : Context.Runs program rounds []
      { globals := program.globals, base := none,
        call := Eval.callAt program.globals bodyOf rounds callLimit, rounds } :=
    { fits := ⟨rfl, rfl⟩
      calls := fun _ _ _ hcode hknown => Eval.callAt_carries h hbodyOf rfl hcode hknown
      raises := .callAt _ _ _ _
      rounds_eq := rfl }
  refine .bind hknown (Block.exec_carries hruns main h.holds_main hknown) ?_
  intro ending store after _ hended _
  cases ending with
  | finished =>
      rw [h.size_code]
      exact .pure hended
  | returned =>
      obtain ⟨position, rfl, hret⟩ := hended
      exact carries_failed hret rfl

end Carries

/-! ## How runs end -/

/-- How a run ended, without the position of a failure. -/
inductive Verdict where
  | completed
  | halted (name : String)
  | failed (fault : Fault)
deriving DecidableEq

/-- The verdict of an outcome. -/
def Outcome.verdict : Outcome → Verdict
  | .completed => .completed
  | .halted name => .halted name
  | .failed error => .failed error.fault

/-- The verdict on an evaluation and the store it left, unless a loop was cut off. -/
def Verdict.ofResult? : EStateM.Result Break (Store ν) Unit → Option (Verdict × Store ν)
  | .ok _ store => some (.completed, store)
  | .error (.halted name) store => some (.halted name, store)
  | .error (.failed fault) store => some (.failed fault, store)
  | .error .exhausted _ => none

section Ends

variable [Host ν] {program : Program ν} {machine : Machine ν}

/-- The machine comes to an end with a verdict and a store. -/
def Machine.Ends (program : Program ν) (machine : Machine ν) (verdict : Verdict)
    (store : Store ν) : Prop :=
  ∃ fuel outcome after, machine.run program fuel = .stopped outcome after ∧
    outcome.verdict = verdict ∧ after.store = store

/-- A machine that has stopped stays as it is. -/
theorem Machine.run_of_le {fuel fuel' : Nat} {outcome : Outcome} {after : Machine ν}
    (h : machine.run program fuel = .stopped outcome after) (hle : fuel ≤ fuel') :
    machine.run program fuel' = .stopped outcome after := by
  obtain ⟨more, rfl⟩ := Nat.exists_eq_add_of_le hle
  rw [run_add, h]

theorem Machine.Ends.unique {verdict verdict' : Verdict} {store store' : Store ν}
    (h : machine.Ends program verdict store) (h' : machine.Ends program verdict' store') :
    verdict = verdict' ∧ store = store' := by
  obtain ⟨fuel, outcome, after, hrun, rfl, rfl⟩ := h
  obtain ⟨fuel', outcome', after', hrun', rfl, rfl⟩ := h'
  have hmax := run_of_le hrun (Nat.le_max_left fuel fuel')
  have hmax' := run_of_le hrun' (Nat.le_max_right fuel fuel')
  cases hmax.symm.trans hmax'
  exact ⟨rfl, rfl⟩

/-- A machine that carries an evaluation out up to the end of the code ends as the evaluation
does. -/
theorem Carries.ends {rounds : Nat} {result : EStateM.Result Break (Store ν) Unit}
    {verdict : Verdict} {store : Store ν}
    (h : Carries program rounds machine (Arrives program.code.size []) result)
    (hresult : Verdict.ofResult? result = some (verdict, store)) :
    machine.Ends program verdict store := by
  match result, hresult, h with
  | .ok _ store, rfl, ⟨fuel, _, hrun, rfl⟩ =>
      refine ⟨fuel + 1, .completed, store.machine program.code.size [], ?_, rfl, rfl⟩
      rw [Machine.run_add, hrun]
      simp [Machine.run, Machine.step, Store.machine]
  | .error (.halted _) _, rfl, ⟨fuel, after, hrun, hstore⟩ =>
      exact ⟨fuel, _, after, hrun, rfl, hstore⟩
  | .error (.failed _) _, rfl, ⟨fuel, index, after, hrun, hstore⟩ =>
      exact ⟨fuel, _, after, hrun, rfl, hstore⟩

theorem Carries.running_of_none {rounds : Nat} {result : EStateM.Result Break (Store ν) Unit}
    {next : Unit → Store ν → Machine ν → Prop} (h : Carries program rounds machine next result)
    (hresult : Verdict.ofResult? result = none) :
    ∃ fuel after, machine.run program fuel = .running after ∧ rounds ≤ fuel := by
  match result, hresult, h with
  | .error .exhausted _, _, h => exact h

/-- A machine ends exactly as the evaluations it carries out end. A run that stops is shorter than
the rounds of some evaluation, which is therefore not cut off. -/
theorem Machine.ends_iff {evaluate : Nat → EStateM.Result Break (Store ν) Unit}
    (h : ∀ rounds, Carries program rounds machine (Arrives program.code.size []) (evaluate rounds))
    {verdict : Verdict} {store : Store ν} :
    machine.Ends program verdict store ↔
      ∃ rounds, Verdict.ofResult? (evaluate rounds) = some (verdict, store) := by
  constructor
  · intro hends
    have hstops := hends
    obtain ⟨fuel, outcome, after, hrun, -, -⟩ := hstops
    refine ⟨fuel, ?_⟩
    cases hresult : Verdict.ofResult? (evaluate fuel) with
    | some found =>
        have hfound := hends.unique ((h fuel).ends hresult)
        rw [hfound.1, hfound.2]
    | none =>
        -- an evaluation that was cut off keeps the machine running for longer than it ran
        obtain ⟨more, running, hmore, hle⟩ := (h fuel).running_of_none hresult
        cases hmore.symm.trans (run_of_le hrun hle)
  · rintro ⟨rounds, hresult⟩
    exact (h rounds).ends hresult

/-- A program that is laid out ends exactly as the evaluations of its top-level block do. -/
theorem Program.Layout.ends_iff {bodies : List Compiled} {main : Block} {bodyOf : Func → Block}
    (h : program.Layout bodies main)
    (hbodyOf : ∀ compiled ∈ bodies, bodyOf compiled.func = compiled.body) {output : Sink}
    {verdict : Verdict} {store : Store ν} :
    (Machine.start program output).Ends program verdict store ↔
      ∃ rounds, Verdict.ofResult?
        (Eval.run program.globals bodyOf rounds main { memory := program.memory, output }) =
          some (verdict, store) := by
  have hknown : (Machine.start program output).Known program := by
    intro func hfunc
    rcases hfunc with hstack | hcell
    · simp [Machine.start] at hstack
    · exact h.mem_functions.2 ((h.functions func).1 hcell)
  apply Machine.ends_iff
  intro rounds
  exact Eval.run_carries h hbodyOf hknown

end Ends

end StackScript
