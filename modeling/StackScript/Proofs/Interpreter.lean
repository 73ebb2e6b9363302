import StackScript.Machine
import StackScript.Proofs.Computation
import StackScript.Tree.Code

/-!
# Running syntax trees

An interpreter that follows the structure of a tree. It has one stack of operands for all blocks,
and locals are a part of that stack. A call that leaves no value can make an operator or a test take
values that were there before, so what an expression does to the stack is all there is to its
meaning. Only loops can go on forever; they are cut off after a number of rounds.

A block that comes to its end leaves the stack no higher than it was, whatever its calls took.
-/

namespace StackScript

variable {ν : Type}

/-- What trees work on. -/
structure Store (ν : Type) where
  /-- The operands and the locals of active calls, the topmost last. -/
  stack : Array (Value ν) := #[]
  memory : Array (Value ν)
  output : Sink := {}

/-- The value below the given number of arguments. -/
def Store.callee? (store : Store ν) (arguments : Nat) : Option (Value ν) :=
  if arguments < store.stack.size then store.stack[store.stack.size - (arguments + 1)]?
  else none

/-- Why a tree is not run to its end. -/
inductive Break where
  | halted (name : String)
  | failed (fault : Fault)
  /-- A loop was cut off. -/
  | exhausted

/-- A computation on a store. -/
abbrev Eval (ν : Type) := EStateM Break (Store ν)

/-- How a statement or a block came to its end. -/
inductive Ending where
  | finished
  | returned

namespace Eval

variable {α : Type}

/-- Fails with a fault. -/
def fail (fault : Fault) : Eval ν α :=
  throw (.failed fault)

/-- Pushes a value. -/
def push (value : Value ν) : Eval ν Unit := fun store =>
  if store.stack.size < stackLimit then
    .ok () { store with stack := store.stack.push value }
  else .error (.failed .stackOverflow) store

/-- Pushes values one after the other. -/
def pushAll : List (Value ν) → Eval ν Unit
  | [] => pure ()
  | first :: rest => do
      push first
      pushAll rest

/-- Pops a value. -/
def pop : Eval ν (Value ν) := fun store =>
  match store.stack.back? with
  | some value => .ok value { store with stack := store.stack.pop }
  | none => .error (.failed .stackUnderflow) store

/-- Pops an integer. -/
def popInt : Eval ν Int64 := do
  let value ← pop
  match value with
  | .int n => return n
  | other => fail (.typeMismatch .int other.tag)

/-- Fails unless a value has the expected tag. -/
def checkTag (expected : TypeTag) (value : Value ν) : Eval ν Unit :=
  if value.tag = expected then pure () else fail (.typeMismatch expected value.tag)

/-- Replaces two integers by the result of an operation on them. -/
def operate (operator : Operator) : Eval ν Unit := do
  let right ← popInt
  let left ← popInt
  match operator.apply left right with
  | .ok result => push (.int result)
  | .error fault => fail fault

/-- Runs a builtin. -/
def native [Host ν] (builtin : Builtin ν) (arguments : List (Value ν)) : Eval ν Unit :=
  fun store =>
    match Host.call builtin.native arguments store.output with
    | .ok .proceed output => .ok () { store with output }
    | .ok .halt output => .error (.halted builtin.name) { store with output }
    | .error error output =>
        .error (.failed (.native builtin.name error)) { store with output }

/-- Cuts the stack down to the values below a place. -/
def truncate (place : Nat) : Eval ν Unit :=
  modify fun store => { store with stack := store.stack.take place }

/-- Moves the arguments of a function down into its place, the lowest first, and puts the other
locals behind them. -/
def enterFunction (func : Func) (place : Nat) (arguments : List (Value ν)) : Eval ν Unit := do
  modify fun store => { store with stack := store.stack.take place ++ arguments.toArray }
  pushAll func.extraLocals

/-- Calls a value that stands on the stack at `place` under its arguments. A builtin is run once the
value and the arguments are gone. A function becomes active and `body` runs it; without `body` no
more calls may become active. -/
def callValue [Host ν] (body : Option (Func → (base : Nat) → Eval ν Unit)) (place : Nat)
    (arguments : List (Value ν)) : Value ν → Eval ν Unit
  | .builtin builtin => do
      truncate place
      native builtin arguments
  | .function func =>
      match Machine.checkArguments func arguments with
      | .error fault => fail fault
      | .ok () =>
          match body with
          | none => fail .callDepthExceeded
          | some body => do
              enterFunction func place arguments
              body func place
  | other => fail (.notInvocable other.tag)

/-- Calls the value below the given number of arguments. -/
def call [Host ν] (body : Option (Func → (base : Nat) → Eval ν Unit)) (arguments : Nat) :
    Eval ν Unit := do
  let store ← get
  let place := store.stack.size - (arguments + 1)
  match store.callee? arguments with
  | some value => callValue body place (store.stack.toList.drop (place + 1)) value
  | none => fail .stackUnderflow

/-- Repeats a body until a test leaves zero, for less than the given number of rounds. -/
def loop (test : Eval ν Unit) (body : Eval ν Ending) : (rounds : Nat) → Eval ν Ending
  | 0 => throw .exhausted
  | rounds + 1 => do
      test
      let n ← popInt
      if n = 0 then return .finished
      match ← body with
      | .finished => loop test body rounds
      | .returned => return .returned

end Eval

/-- What a block is run with. -/
structure Context (ν : Type) where
  globals : SlotTable
  /-- Where the locals of the running function start on the stack. -/
  base : Option Nat
  /-- What a call with a number of arguments does. -/
  call : (arguments : Nat) → Eval ν Unit
  /-- How many rounds a loop may begin. -/
  rounds : Nat

namespace Context

/-- The memory cell of a global. -/
def globalCell (context : Context ν) (name : String) : Eval ν Nat := fun store =>
  match context.globals.slot? name with
  | some cell =>
      if cell < store.memory.size then .ok cell store
      else .error (.failed (.unresolvedName name)) store
  | none => .error (.failed (.unresolvedName name)) store

/-- The place of a local on the stack, and what it holds. -/
def localCell (context : Context ν) (slot : Nat) : Eval ν (Nat × Value ν) := fun store =>
  match context.base with
  | none => .error (.failed .noActiveFrame) store
  | some base =>
      match store.stack[base + slot]? with
      | some value => .ok (base + slot, value) store
      | none => .error (.failed (.localOutOfRange slot)) store

/-- Pushes the value of a variable. -/
def load (context : Context ν) : Place → Eval ν Unit
  | .global name => do
      let store ← get
      match (context.globals.slot? name).bind (store.memory[·]?) with
      | some value => Eval.push value
      | none => Eval.fail (.unresolvedName name)
  | .slot index type => do
      let (_, value) ← context.localCell index
      Eval.checkTag type value
      Eval.push value

/-- Pops a value into a variable. A local and its new value need the declared tag. -/
def assign (context : Context ν) : Place → Eval ν Unit
  | .global name => do
      let value ← Eval.pop
      let cell ← context.globalCell name
      modify fun store => { store with memory := store.memory.setIfInBounds cell value }
  | .slot index type => do
      let value ← Eval.pop
      let (place, old) ← context.localCell index
      Eval.checkTag type old
      Eval.checkTag type value
      modify fun store => { store with stack := store.stack.setIfInBounds place value }

end Context

mutual

/-- Evaluates an expression, from left to right. -/
def Expr.eval (context : Context ν) : Expr → Eval ν Unit
  | .literal value => Eval.push (.ofLiteral value)
  | .variable place => context.load place
  | .call callee arguments => do
      callee.eval context
      Expr.evalAll context arguments
      context.call arguments.length
  | .binary left operator right => do
      left.eval context
      right.eval context
      Eval.operate operator

/-- Evaluates expressions one after the other. -/
def Expr.evalAll (context : Context ν) : List Expr → Eval ν Unit
  | [] => pure ()
  | first :: rest => do
      first.eval context
      Expr.evalAll context rest

end

mutual

/-- Runs a statement. -/
def Stmt.exec (context : Context ν) : Stmt → Eval ν Ending
  | .skip | .declare _ _ => return .finished
  | .ret => return .returned
  | .branch test body => do
      test.eval context
      let n ← Eval.popInt
      if n = 0 then return .finished
      Block.exec context body
  | .loop test body => Eval.loop (test.eval context) (Block.exec context body) context.rounds
  | .assign target value => do
      value.eval context
      context.assign target
      return .finished
  | .evaluate term => do
      term.eval context
      if term.isCall then return .finished
      let _ ← Eval.pop
      return .finished

/-- Runs the statements of a block until one of them returns. -/
def Block.exec (context : Context ν) : Block → Eval ν Ending
  | [] => return .finished
  | first :: rest => do
      match ← first.exec context with
      | .finished => Block.exec context rest
      | .returned => return .returned

end

namespace Eval

variable [Host ν]

/-- Runs the block of a function whose locals start at `base`. After it the stack is cut down to
where the function was. -/
def body (globals : SlotTable) (bodyOf : Func → Block) (rounds : Nat) (call : Nat → Eval ν Unit)
    (func : Func) (base : Nat) : Eval ν Unit := do
  let _ ← Block.exec { globals, base := some base, call, rounds } (bodyOf func)
  truncate base

/-- A call while at most `depth` more calls may become active. -/
def callAt (globals : SlotTable) (bodyOf : Func → Block) (rounds : Nat) :
    (depth arguments : Nat) → Eval ν Unit
  | 0 => call none
  | depth + 1 => call (some (body globals bodyOf rounds (callAt globals bodyOf rounds depth)))

/-- Runs top-level code. -/
def run (globals : SlotTable) (bodyOf : Func → Block) (rounds : Nat) (main : Block) :
    Eval ν Unit := do
  let call := callAt globals bodyOf rounds callLimit
  match ← Block.exec { globals, base := none, call, rounds } main with
  | .finished => return ()
  | .returned => fail .returnOutsideFunction

end Eval

/-! ## How high the stack gets -/

theorem Eval.checkTag_keeps {expected : TypeTag} {value : Value ν} {store store' : Store ν}
    {result : Unit} (h : Eval.checkTag expected value store = .ok result store') :
    store' = store := by
  unfold Eval.checkTag at h
  split at h
  · exact (pure_eq_ok.1 h).2.symm
  · exact absurd h throw_ne_ok

theorem Context.globalCell_keeps {context : Context ν} {name : String} {store store' : Store ν}
    {cell : Nat} (h : context.globalCell name store = .ok cell store') : store' = store := by
  unfold Context.globalCell at h
  split at h
  · split at h <;> cases h
    rfl
  · cases h

theorem Context.localCell_keeps {context : Context ν} {slot : Nat} {store store' : Store ν}
    {cell : Nat × Value ν} (h : context.localCell slot store = .ok cell store') :
    store' = store := by
  unfold Context.localCell at h
  split at h
  · cases h
  · split at h <;> cases h
    rfl

namespace Eval

variable {α β : Type} {pushed popped pushed' popped' : Nat}

/-- A computation that succeeds takes at least `popped` values and gives at most `pushed`. -/
def Raises (pushed popped : Nat) (computation : Eval ν α) : Prop :=
  ∀ store result store', computation store = .ok result store' →
    store'.stack.size + popped ≤ store.stack.size + pushed

namespace Raises

theorem mono {computation : Eval ν α} (h : Raises pushed popped computation)
    (hle : pushed + popped' ≤ pushed' + popped) : Raises pushed' popped' computation := by
  intro store result store' heval
  have hsize := h store result store' heval
  omega

/-- What a sequence may do is what its first part does, and what that leaves for the rest. -/
theorem bind {first : Eval ν α} {next : α → Eval ν β} (h : Raises pushed' popped' first)
    (h' : ∀ value, Raises (pushed + popped') (popped + pushed') (next value)) :
    Raises pushed popped (first >>= next) := by
  intro store result store' heval
  obtain ⟨value, middle, hfirst, hnext⟩ := bind_eq_ok.1 heval
  have hbefore := h store value middle hfirst
  have hafter := h' value middle result store' hnext
  omega

theorem pure (value : α) : Raises 0 0 (Pure.pure value : Eval ν α) := by
  intro store result store' heval
  cases heval
  exact Nat.le_refl _

theorem fail (fault : Fault) : Raises pushed popped (Eval.fail fault : Eval ν α) :=
  fun _ _ _ heval => absurd heval throw_ne_ok

theorem push (value : Value ν) : Raises 1 0 (Eval.push value) := by
  intro store result store' heval
  unfold Eval.push at heval
  split at heval <;> cases heval
  simp

theorem pop : Raises 0 1 (Eval.pop : Eval ν (Value ν)) := by
  intro store result store' heval
  unfold Eval.pop at heval
  split at heval <;> cases heval
  next htop =>
    rw [Array.back?_eq_getElem?] at htop
    obtain ⟨hlt, -⟩ := Array.getElem?_eq_some_iff.1 htop
    simp only [Array.size_pop]
    omega

theorem popInt : Raises 0 1 (Eval.popInt : Eval ν Int64) := by
  refine .bind .pop fun value => ?_
  cases value with
  | int n => exact (pure n).mono (by omega)
  | str | builtin | function => exact .fail _

theorem keeps {computation : Eval ν α}
    (h : ∀ store result store', computation store = .ok result store' → store' = store) :
    Raises 0 0 computation := by
  intro store result store' heval
  have hsame := h store result store' heval
  subst hsame
  exact Nat.le_refl _

theorem checkTag (expected : TypeTag) (value : Value ν) :
    Raises 0 0 (Eval.checkTag expected value) :=
  .keeps fun _ _ _ => checkTag_keeps

theorem operate (operator : Operator) : Raises 1 2 (Eval.operate operator : Eval ν Unit) := by
  refine .bind .popInt fun right => .bind .popInt fun left => ?_
  cases operator.apply left right with
  | ok result => exact (push (.int result)).mono (by omega)
  | error fault => exact .fail fault

theorem modify {change : Store ν → Store ν}
    (h : ∀ store, (change store).stack.size ≤ store.stack.size) :
    Raises 0 0 (MonadState.modifyGet fun store => ((), change store) : Eval ν Unit) := by
  intro store result store' heval
  cases heval
  exact h store

theorem globalCell (context : Context ν) (name : String) :
    Raises 0 0 (context.globalCell name) :=
  .keeps fun _ _ _ => Context.globalCell_keeps

theorem localCell (context : Context ν) (slot : Nat) : Raises 0 0 (context.localCell slot) :=
  .keeps fun _ _ _ => Context.localCell_keeps

theorem load (context : Context ν) (place : Place) : Raises 1 0 (context.load place) := by
  cases place with
  | global name =>
      intro store result store' heval
      rw [Context.load, get_bind] at heval
      cases hvalue : (context.globals.slot? name).bind (store.memory[·]?) with
      | none =>
          rw [hvalue] at heval
          exact fail _ store result store' heval
      | some value =>
          rw [hvalue] at heval
          exact push value store result store' heval
  | slot index type =>
      refine .bind (.localCell context index) fun cell => ?_
      exact .bind (.checkTag type cell.2) fun _ => (push cell.2).mono (by omega)

theorem assign (context : Context ν) (place : Place) : Raises 0 1 (context.assign place) := by
  cases place with
  | global name =>
      refine .bind .pop fun value => .bind (.globalCell context name) fun cell => ?_
      exact (modify fun store => by simp).mono (by omega)
  | slot index type =>
      refine .bind .pop fun value => .bind (.localCell context index) fun cell => ?_
      refine .bind (.checkTag type cell.2) fun _ => .bind (.checkTag type value) fun _ => ?_
      exact (modify fun store => by simp).mono (by omega)

theorem callValue_le [Host ν] {body : Option (Func → Nat → Eval ν Unit)}
    (h : ∀ run ∈ body, ∀ func base store result store',
      run func base store = .ok result store' → store'.stack.size ≤ base)
    {place : Nat} {arguments : List (Value ν)} {value : Value ν} {store store' : Store ν}
    {result : Unit} (heval : callValue body place arguments value store = .ok result store') :
    store'.stack.size ≤ place := by
  cases value with
  | int | str => exact absurd heval throw_ne_ok
  | builtin builtin =>
      obtain ⟨_, _, htruncate, hnative⟩ := bind_eq_ok.1 heval
      cases htruncate
      unfold Eval.native at hnative
      split at hnative <;> cases hnative
      simp only [Array.take_eq_extract, Array.size_extract]
      omega
  | function func =>
      simp only [callValue] at heval
      cases hcheck : Machine.checkArguments func arguments with
      | error fault =>
          rw [hcheck] at heval
          exact absurd heval throw_ne_ok
      | ok =>
          rw [hcheck] at heval
          cases body with
          | none => exact absurd heval throw_ne_ok
          | some run =>
              obtain ⟨_, _, _, hrun⟩ := bind_eq_ok.1 heval
              exact h run rfl _ _ _ _ _ hrun

/-- A call takes the arguments and the called value, and leaves nothing: the stack is cut down to
where the value was. -/
theorem call [Host ν] {body : Option (Func → Nat → Eval ν Unit)}
    (h : ∀ run ∈ body, ∀ func base store result store',
      run func base store = .ok result store' → store'.stack.size ≤ base) (arguments : Nat) :
    Raises 0 (arguments + 1) (Eval.call body arguments) := by
  intro store result store' heval
  rw [Eval.call, get_bind] at heval
  cases hcallee : store.callee? arguments with
  | none =>
      simp only [hcallee] at heval
      exact absurd heval throw_ne_ok
  | some value =>
      simp only [hcallee] at heval
      have hplace := callValue_le h heval
      have hlt : arguments < store.stack.size := by
        unfold Store.callee? at hcallee
        split at hcallee
        next hlt => exact hlt
        next => cases hcallee
      omega

theorem loop {test : Eval ν Unit} {body : Eval ν Ending} (htest : Raises 1 0 test)
    (hbody : Raises 0 0 body) (rounds : Nat) : Raises 0 0 (Eval.loop test body rounds) := by
  induction rounds with
  | zero => exact fun _ _ _ heval => absurd heval throw_ne_ok
  | succ rounds ih =>
      refine .bind htest fun _ => .bind .popInt fun n => ?_
      split
      · exact (pure Ending.finished).mono (by omega)
      · refine .bind hbody fun ending => ?_
        cases ending with
        | finished => exact ih.mono (by omega)
        | returned => exact (pure Ending.returned).mono (by omega)

/-- After a function the stack is cut down to where it was, so its block does not matter. -/
theorem callAt [Host ν] (globals : SlotTable) (bodyOf : Func → Block)
    (rounds depth arguments : Nat) :
    Raises 0 (arguments + 1) (Eval.callAt globals bodyOf rounds depth arguments : Eval ν Unit) := by
  cases depth with
  | zero => exact .call (by simp) arguments
  | succ depth =>
      refine .call ?_ arguments
      intro run hrun func base store result store' heval
      cases hrun
      obtain ⟨_, middle, _, htruncate⟩ := bind_eq_ok.1 heval
      cases htruncate
      simp only [Array.take_eq_extract, Array.size_extract]
      omega

end Raises

end Eval

section Raises

variable {context : Context ν}

theorem Eval.Raises.atMostOne {α : Type} {computation : Eval ν α} {leavesNone : Bool}
    (h : computation.Raises (if leavesNone then 0 else 1) 0) : computation.Raises 1 0 :=
  h.mono (by split <;> omega)

mutual

theorem Expr.eval_raises (h : ∀ n, (context.call n).Raises 0 (n + 1)) : ∀ expression : Expr,
    (expression.eval context).Raises (if expression.isCall then 0 else 1) 0
  | .literal value => .push _
  | .variable place => .load context place
  | .call callee arguments => by
      have hcallee := (Expr.eval_raises h callee).atMostOne
      refine .bind hcallee fun _ => .bind (Expr.evalAll_raises h arguments) fun _ => ?_
      exact (h arguments.length).mono (by simp [Expr.isCall]; omega)
  | .binary left operator right => by
      have hleft := (Expr.eval_raises h left).atMostOne
      have hright := (Expr.eval_raises h right).atMostOne
      refine .bind hleft fun _ => .bind hright fun _ => ?_
      exact (Eval.Raises.operate operator).mono (by simp [Expr.isCall])

theorem Expr.evalAll_raises (h : ∀ n, (context.call n).Raises 0 (n + 1)) : ∀ list : List Expr,
    (Expr.evalAll context list).Raises list.length 0
  | [] => .pure ()
  | first :: rest => by
      have hfirst := (Expr.eval_raises h first).atMostOne
      refine .bind hfirst fun _ => ?_
      exact (Expr.evalAll_raises h rest).mono (by simp)

end

theorem Eval.room_of_push {value : Value ν} {store store' : Store ν} {result : Unit}
    (h : Eval.push value store = .ok result store') : store.stack.size < stackLimit := by
  unfold Eval.push at h
  split at h
  next hroom => exact hroom
  next => cases h

theorem Context.room_of_load {place : Place} {store store' : Store ν} {result : Unit}
    (h : context.load place store = .ok result store') : store.stack.size < stackLimit := by
  cases place with
  | global name =>
      rw [Context.load, get_bind] at h
      cases hvalue : (context.globals.slot? name).bind (store.memory[·]?) with
      | none =>
          rw [hvalue] at h
          exact absurd h throw_ne_ok
      | some value =>
          rw [hvalue] at h
          exact Eval.room_of_push h
  | slot index type =>
      obtain ⟨cell, middle, hcell, hrest⟩ := bind_eq_ok.1 h
      obtain ⟨_, checked, hcheck, hpush⟩ := bind_eq_ok.1 hrest
      have hroom := Eval.room_of_push hpush
      rwa [Eval.checkTag_keeps hcheck, Context.localCell_keeps hcell] at hroom

/-- An expression starts with a push, so it is evaluated only if there is room for a value. -/
theorem Expr.room_of_eval : ∀ (expression : Expr) {store store' : Store ν} {result : Unit},
    expression.eval context store = .ok result store' → store.stack.size < stackLimit
  | .literal value, store, store', result, h => by
      rw [Expr.eval] at h
      exact Eval.room_of_push h
  | .variable place, store, store', result, h => by
      rw [Expr.eval] at h
      exact Context.room_of_load h
  | .call callee arguments, store, store', result, h => by
      obtain ⟨_, _, hcallee, _⟩ := bind_eq_ok.1 h
      exact callee.room_of_eval hcallee
  | .binary left operator right, store, store', result, h => by
      obtain ⟨_, _, hleft, _⟩ := bind_eq_ok.1 h
      exact left.room_of_eval hleft

mutual

theorem Stmt.exec_raises (h : ∀ n, (context.call n).Raises 0 (n + 1)) : ∀ statement : Stmt,
    (statement.exec context).Raises 0 0
  | .skip | .declare _ _ => .pure _
  | .ret => .pure _
  | .branch test body => by
      have htest := (Expr.eval_raises h test).atMostOne
      refine .bind htest fun _ => .bind .popInt fun n => ?_
      split
      · exact (Eval.Raises.pure Ending.finished).mono (by omega)
      · exact (Block.exec_raises h body).mono (by omega)
  | .loop test body => by
      have htest := (Expr.eval_raises h test).atMostOne
      exact .loop htest (Block.exec_raises h body) context.rounds
  | .assign target value => by
      have hvalue := (Expr.eval_raises h value).atMostOne
      refine .bind hvalue fun _ => .bind (.assign context target) fun _ => ?_
      exact (Eval.Raises.pure Ending.finished).mono (by omega)
  | .evaluate term => by
      refine .bind (Expr.eval_raises h term) fun _ => ?_
      cases hcall : term.isCall with
      | true => exact (Eval.Raises.pure Ending.finished).mono (by simp)
      | false =>
          refine .bind .pop fun _ => ?_
          exact (Eval.Raises.pure Ending.finished).mono (by simp)

/-- A block leaves nothing on the stack, and may take what it finds there. -/
theorem Block.exec_raises (h : ∀ n, (context.call n).Raises 0 (n + 1)) : ∀ block : Block,
    (Block.exec context block).Raises 0 0
  | [] => .pure _
  | first :: rest => by
      refine .bind (Stmt.exec_raises h first) fun ending => ?_
      cases ending with
      | finished => exact (Block.exec_raises h rest).mono (by omega)
      | returned => exact (Eval.Raises.pure Ending.returned).mono (by omega)

end

end Raises

end StackScript
