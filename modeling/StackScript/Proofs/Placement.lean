import StackScript.Native
import StackScript.Proofs.Building
import StackScript.Proofs.Interpreter

/-!
# Where functions and globals are placed

A function carries the position of its code, and globals have slots, but nothing that a tree does
depends on them: functions are run by name and globals are found by name. Two stores that agree but
for positions and slots agree after every computation, and the computation ends in the same way.
-/

namespace StackScript

variable {ν : Type}

/-! ## Values without positions -/

/-- The function without the position of its code. -/
def Func.unplaced (func : Func) : Func :=
  { func with entry := 0 }

theorem Func.unplaced_eq_iff {func func' : Func} :
    func.unplaced = func'.unplaced ↔
      func.name = func'.name ∧ func.params = func'.params ∧ func.returns = func'.returns ∧
        func.locals = func'.locals := by
  simp [unplaced, Func.mk.injEq]

theorem Func.extraLocals_unplaced (func : Func) :
    (func.unplaced.extraLocals : List (Value ν)) = func.extraLocals :=
  rfl

namespace Value

/-- The value without the position of its code, if it is a function. -/
def unplaced : Value ν → Value ν
  | .function func => .function func.unplaced
  | other => other

@[simp] theorem tag_unplaced (value : Value ν) : value.unplaced.tag = value.tag := by
  cases value <;> rfl

/-- Values that differ in a position only are functions. -/
theorem eq_or_functions_of_unplaced_eq {value value' : Value ν}
    (h : value.unplaced = value'.unplaced) :
    value = value' ∨ ∃ func func', value = .function func ∧ value' = .function func' ∧
      func.unplaced = func'.unplaced := by
  cases value with
  | int | str | builtin =>
      cases value' with
      | int | str | builtin => exact .inl h
      | function => cases h
  | function func =>
      cases value' with
      | int | str | builtin => cases h
      | function func' => exact .inr ⟨func, func', rfl, rfl, Value.function.inj h⟩

theorem render_unplaced (value : Value ν) : value.unplaced.render = value.render := by
  cases value <;> rfl

end Value

theorem Machine.firstMismatch?_unplaced (index : Nat) (types : List TypeTag)
    (values : List (Value ν)) :
    firstMismatch? index types (values.map Value.unplaced) = firstMismatch? index types values := by
  induction types generalizing index values with
  | nil => simp [firstMismatch?]
  | cons expected types ih =>
      cases values with
      | nil => rfl
      | cons value values => simp only [List.map_cons, firstMismatch?, Value.tag_unplaced, ih]

/-- Whether a function accepts arguments does not depend on positions. -/
theorem Machine.checkArguments_unplaced (func : Func) (arguments : List (Value ν)) :
    checkArguments func.unplaced (arguments.map Value.unplaced) =
      checkArguments func arguments := by
  simp only [checkArguments, List.length_map, firstMismatch?_unplaced]
  rfl

/-- No native sees the position of a function. -/
def Host.IgnoresPositions (ν : Type) [Host ν] : Prop :=
  ∀ (native : ν) (arguments : List (Value ν)),
    Host.call native (arguments.map Value.unplaced) = Host.call native arguments

namespace Native

theorem printValues_unplaced (values : List (Value ν)) :
    printValues (values.map Value.unplaced) = printValues values := by
  induction values with
  | nil => rfl
  | cons first rest ih => simp only [List.map_cons, printValues, Value.render_unplaced, ih]

theorem sum_unplaced (index : Nat) (total : Int64) (values : List (Value ν)) :
    sum index total (values.map Value.unplaced) = sum index total values := by
  induction values generalizing index total with
  | nil => rfl
  | cons first rest ih =>
      cases first with
      | int value => exact ih (index + 1) (total + value)
      | str | builtin | function => rfl

/-- The standard natives print the name of a function and nothing else of it. -/
theorem ignoresPositions : Host.IgnoresPositions Native := by
  intro native arguments
  cases native with
  | printOne =>
      match arguments with
      | [] => rfl
      | [value] =>
          simp only [Host.call, perform, List.map_cons, List.map_nil, Value.render_unplaced]
      | first :: second :: rest =>
          simp only [Host.call, perform, List.map_cons, List.length_cons, List.length_map]
  | printAll => simp only [Host.call, perform, printValues_unplaced]
  | printSum => simp only [Host.call, perform, sum_unplaced]
  | done => rfl

end Native

/-! ## Stores -/

namespace Store

/-- The value of a global. -/
def global? (globals : SlotTable) (store : Store ν) (name : String) : Option (Value ν) :=
  (globals.slot? name).bind (store.memory[·]?)

/-- The stores have the same stack and the same values under the same names, but for the positions
of functions, and the same output. -/
structure Alike (globals globals' : SlotTable) (store store' : Store ν) : Prop where
  stack : store.stack.map Value.unplaced = store'.stack.map Value.unplaced
  memory : ∀ name, (store.global? globals name).map Value.unplaced =
    (store'.global? globals' name).map Value.unplaced
  output : store.output = store'.output

namespace Alike

variable {globals globals' : SlotTable} {store store' : Store ν}

theorem size (h : store.Alike globals globals' store') : store.stack.size = store'.stack.size := by
  simpa using congrArg Array.size h.stack

theorem getElem? (h : store.Alike globals globals' store') (index : Nat) :
    (store.stack[index]?).map Value.unplaced = (store'.stack[index]?).map Value.unplaced := by
  simpa using congrArg (·[index]?) h.stack

theorem withStack (h : store.Alike globals globals' store') {stack stack' : Array (Value ν)}
    (hstack : stack.map Value.unplaced = stack'.map Value.unplaced) :
    Alike globals globals' { store with stack } { store' with stack := stack' } :=
  ⟨hstack, h.memory, h.output⟩

theorem withOutput (h : store.Alike globals globals' store') (output : Sink) :
    Alike globals globals' { store with output } { store' with output } :=
  ⟨h.stack, h.memory, rfl⟩

theorem take (h : store.Alike globals globals' store') (place : Nat) :
    (store.stack.take place).map Value.unplaced = (store'.stack.take place).map Value.unplaced := by
  simpa using congrArg (Array.take · place) h.stack

end Alike

end Store

/-! ## Computations -/

variable {α β : Type} {globals globals' : SlotTable}

/-- Two evaluations ended in the same way, with related results and stores that are alike. -/
inductive Agrees (globals globals' : SlotTable) (Related : α → α → Prop) :
    EStateM.Result Break (Store ν) α → EStateM.Result Break (Store ν) α → Prop
  | ok {value value' : α} {store store' : Store ν} (related : Related value value')
      (alike : store.Alike globals globals' store') :
      Agrees globals globals' Related (.ok value store) (.ok value' store')
  | error {reason : Break} {store store' : Store ν} (alike : store.Alike globals globals' store') :
      Agrees globals globals' Related (.error reason store) (.error reason store')

/-- Two computations agree on stores that are alike. -/
def Eval.Parallel (globals globals' : SlotTable) (Related : α → α → Prop)
    (computation computation' : Eval ν α) : Prop :=
  ∀ store store', store.Alike globals globals' store' →
    Agrees globals globals' Related (computation store) (computation' store')

namespace Eval.Parallel

variable {Related : α → α → Prop}

theorem pure {value value' : α} (h : Related value value') :
    Parallel globals globals' Related (Pure.pure value : Eval ν α) (Pure.pure value') :=
  fun _ _ hstore => .ok h hstore

theorem throw (reason : Break) :
    Parallel globals globals' Related (MonadExcept.throw reason : Eval ν α)
      (MonadExcept.throw reason) :=
  fun _ _ hstore => .error hstore

theorem fail (fault : Fault) :
    Parallel globals globals' Related (Eval.fail fault : Eval ν α) (Eval.fail fault) :=
  throw (.failed fault)

theorem bind {Related' : β → β → Prop} {first first' : Eval ν α} {next next' : α → Eval ν β}
    (h : Parallel globals globals' Related first first')
    (h' : ∀ value value', Related value value' →
      Parallel globals globals' Related' (next value) (next' value')) :
    Parallel globals globals' Related' (first >>= next) (first' >>= next') := by
  intro store store' hstore
  have hfirst := h store store' hstore
  simp only [Bind.bind, EStateM.bind]
  cases hresult : first store <;> cases hresult' : first' store' <;>
    rw [hresult, hresult'] at hfirst <;> cases hfirst
  case ok.ok.ok related alike => exact h' _ _ related _ _ alike
  case error.error.error alike => exact .error alike

/-- A step with a result that is the same on both sides. -/
theorem andThen {Related' : β → β → Prop} {first first' : Eval ν α} {next next' : α → Eval ν β}
    (h : Parallel globals globals' (· = ·) first first')
    (h' : ∀ value, Parallel globals globals' Related' (next value) (next' value)) :
    Parallel globals globals' Related' (first >>= next) (first' >>= next') := by
  apply h.bind
  rintro value _ rfl
  exact h' value

theorem changes {change change' : Store ν → Store ν}
    (h : ∀ store store', store.Alike globals globals' store' →
      (change store).Alike globals globals' (change' store')) :
    Parallel globals globals' (· = ·) (modify change : Eval ν Unit) (modify change') :=
  fun store store' hstore => .ok rfl (h store store' hstore)

theorem push {value value' : Value ν} (h : value.unplaced = value'.unplaced) :
    Parallel globals globals' (· = ·) (Eval.push value) (Eval.push value') := by
  intro store store' hstore
  unfold Eval.push
  rw [hstore.size]
  split
  · refine .ok rfl (hstore.withStack ?_)
    rw [Array.map_push, Array.map_push, hstore.stack, h]
  · exact .error hstore

theorem pushAll (values : List (Value ν)) :
    Parallel globals globals' (· = ·) (Eval.pushAll values) (Eval.pushAll values) := by
  induction values with
  | nil => exact .pure rfl
  | cons first rest ih => exact .andThen (.push rfl) fun _ => ih

theorem pop :
    Parallel globals globals' (fun value value' => value.unplaced = value'.unplaced)
      (Eval.pop : Eval ν (Value ν)) Eval.pop := by
  intro store store' hstore
  have htop : store.stack.back?.map Value.unplaced = store'.stack.back?.map Value.unplaced := by
    rw [Array.back?_eq_getElem?, Array.back?_eq_getElem?, hstore.size]
    exact hstore.getElem? _
  unfold Eval.pop
  cases hvalue : store.stack.back? <;> cases hvalue' : store'.stack.back? <;>
    rw [hvalue, hvalue'] at htop
  case none.none => exact .error hstore
  case none.some | some.none => cases htop
  case some.some =>
    refine .ok (Option.some.inj htop) (hstore.withStack ?_)
    rw [Array.map_pop, Array.map_pop, hstore.stack]

theorem popInt :
    Parallel globals globals' (· = ·) (Eval.popInt : Eval ν Int64) Eval.popInt := by
  apply Parallel.pop.bind
  intro value value' h
  rcases Value.eq_or_functions_of_unplaced_eq h with rfl | ⟨func, func', rfl, rfl, -⟩
  · cases value with
    | int => exact .pure rfl
    | str | builtin | function => exact .fail _
  · exact .fail _

theorem checkTag (expected : TypeTag) {value value' : Value ν}
    (h : value.unplaced = value'.unplaced) :
    Parallel globals globals' (· = ·) (Eval.checkTag expected value)
      (Eval.checkTag expected value') := by
  have htag := congrArg Value.tag h
  simp only [Value.tag_unplaced] at htag
  unfold Eval.checkTag
  rw [htag]
  split
  · exact .pure rfl
  · exact .fail _

theorem operate (operator : Operator) :
    Parallel globals globals' (· = ·) (Eval.operate operator : Eval ν Unit)
      (Eval.operate operator) := by
  refine .andThen .popInt fun right => .andThen .popInt fun left => ?_
  cases operator.apply left right with
  | ok result => exact .push rfl
  | error fault => exact .fail fault

theorem truncate (place : Nat) :
    Parallel globals globals' (· = ·) (Eval.truncate place : Eval ν Unit)
      (Eval.truncate place) :=
  .changes fun _ _ hstore => hstore.withStack (hstore.take place)

theorem enterFunction {func func' : Func} {arguments arguments' : List (Value ν)}
    (hfunc : func.unplaced = func'.unplaced)
    (harguments : arguments.map Value.unplaced = arguments'.map Value.unplaced) (place : Nat) :
    Parallel globals globals' (· = ·) (Eval.enterFunction func place arguments)
      (Eval.enterFunction func' place arguments') := by
  have hlocals : (func.extraLocals : List (Value ν)) = func'.extraLocals := by
    rw [← func.extraLocals_unplaced, hfunc, func'.extraLocals_unplaced]
  unfold Eval.enterFunction
  rw [hlocals]
  refine .andThen (.changes fun store store' hstore => hstore.withStack ?_) fun _ => .pushAll _
  simp only [Array.map_append, hstore.take place, List.map_toArray, harguments]

theorem loop {test test' : Eval ν Unit} {body body' : Eval ν Ending}
    (htest : Parallel globals globals' (· = ·) test test')
    (hbody : Parallel globals globals' (· = ·) body body') (rounds : Nat) :
    Parallel globals globals' (· = ·) (Eval.loop test body rounds)
      (Eval.loop test' body' rounds) := by
  induction rounds with
  | zero => exact .throw .exhausted
  | succ rounds ih =>
      refine .andThen htest fun _ => .andThen .popInt fun n => ?_
      split
      · exact .pure rfl
      · refine .andThen hbody fun ending => ?_
        cases ending with
        | finished => exact ih
        | returned => exact .pure rfl

/-- The cell of a local is in the same place and holds the same value. -/
theorem localCell {context context' : Context ν} (hbase : context.base = context'.base)
    (slot : Nat) :
    Parallel globals globals'
      (fun cell cell' => cell.1 = cell'.1 ∧ cell.2.unplaced = cell'.2.unplaced)
      (context.localCell slot) (context'.localCell slot) := by
  intro store store' hstore
  unfold Context.localCell
  rw [hbase]
  cases context'.base with
  | none => exact .error hstore
  | some base =>
      have hcell := hstore.getElem? (base + slot)
      cases hvalue : store.stack[base + slot]? <;> cases hvalue' : store'.stack[base + slot]? <;>
        rw [hvalue, hvalue'] at hcell
      case none.none =>
        simp only [hvalue, hvalue']
        exact .error hstore
      case none.some | some.none => cases hcell
      case some.some =>
        simp only [hvalue, hvalue']
        exact .ok ⟨rfl, Option.some.inj hcell⟩ hstore

end Eval.Parallel

/-! ## Variables -/

/-- An assigned global has its new value, and no other name leads to its cell. -/
theorem Store.global?_assign {globals : SlotTable} {store : Store ν} {name : String} {cell : Nat}
    (hcell : globals.slot? name = some cell) (hlt : cell < store.memory.size) (value : Value ν)
    (other : String) :
    Store.global? globals { store with memory := store.memory.setIfInBounds cell value } other =
      if other = name then some value else store.global? globals other := by
  unfold Store.global?
  split
  next hsame =>
    rw [hsame, hcell]
    simp [hlt]
  next hother =>
    cases hfound : globals.slot? other with
    | none => rfl
    | some found =>
        have hne : cell ≠ found := by
          rintro rfl
          have hname := SlotTable.getElem?_of_slot? hcell
          rw [SlotTable.getElem?_of_slot? hfound] at hname
          exact hother (Option.some.inj hname)
        simp only [Option.bind_some, Array.getElem?_setIfInBounds, if_neg hne]

theorem Store.isSome_global?_iff {globals : SlotTable} {store : Store ν} {name : String} :
    (store.global? globals name).isSome = true ↔
      ∃ cell, globals.slot? name = some cell ∧ cell < store.memory.size := by
  unfold Store.global?
  cases globals.slot? name <;> simp

section Variables

variable {context context' : Context ν}

theorem Context.globalCell_of_slot? {name : String} {store : Store ν} {cell : Nat}
    (hcell : context.globals.slot? name = some cell) (hlt : cell < store.memory.size) :
    context.globalCell name store = .ok cell store := by
  simp only [globalCell, hcell, if_pos hlt]

theorem Context.globalCell_of_unknown {name : String} {store : Store ν}
    (h : ¬ (store.global? context.globals name).isSome = true) :
    context.globalCell name store = .error (.failed (.unresolvedName name)) store := by
  unfold globalCell
  split
  next cell hcell =>
    rw [if_neg]
    intro hlt
    exact h (Store.isSome_global?_iff.2 ⟨cell, hcell, hlt⟩)
  next => rfl

/-- Assigning to a global changes the same name in both stores. -/
theorem Context.assignGlobal_parallel (name : String) {value value' : Value ν}
    (hvalue : value.unplaced = value'.unplaced) :
    Eval.Parallel context.globals context'.globals (· = ·)
      (do
        let cell ← context.globalCell name
        modify fun store => { store with memory := store.memory.setIfInBounds cell value })
      (do
        let cell ← context'.globalCell name
        modify fun store => { store with memory := store.memory.setIfInBounds cell value' }) := by
  intro store store' hstore
  have hknown := congrArg Option.isSome (hstore.memory name)
  rw [Option.isSome_map, Option.isSome_map] at hknown
  by_cases hfound : (store.global? context.globals name).isSome = true
  · obtain ⟨cell, hcell, hlt⟩ := Store.isSome_global?_iff.1 hfound
    obtain ⟨cell', hcell', hlt'⟩ := Store.isSome_global?_iff.1 (hknown ▸ hfound)
    rw [bind_of_ok (globalCell_of_slot? hcell hlt), bind_of_ok (globalCell_of_slot? hcell' hlt')]
    refine .ok rfl ⟨hstore.stack, ?_, hstore.output⟩
    intro other
    rw [Store.global?_assign hcell hlt, Store.global?_assign hcell' hlt']
    split
    · exact congrArg some hvalue
    · exact hstore.memory other
  · have hmissing := globalCell_of_unknown hfound
    have hmissing' := globalCell_of_unknown (hknown ▸ hfound)
    simp only [bind, EStateM.bind, hmissing, hmissing']
    exact .error hstore

theorem Context.load_parallel (hbase : context.base = context'.base) (place : Place) :
    Eval.Parallel context.globals context'.globals (· = ·) (context.load place)
      (context'.load place) := by
  cases place with
  | slot index type =>
      refine .bind (.localCell hbase index) fun cell cell' hcell => ?_
      exact .andThen (.checkTag type hcell.2) fun _ => .push hcell.2
  | global name =>
      intro store store' hstore
      have hvalue := hstore.memory name
      unfold Store.global? at hvalue
      rw [Context.load, Context.load, get_bind, get_bind]
      cases hfound : (context.globals.slot? name).bind (store.memory[·]?) <;>
        cases hfound' : (context'.globals.slot? name).bind (store'.memory[·]?) <;>
        rw [hfound, hfound'] at hvalue
      case none.none => exact .error hstore
      case none.some | some.none => cases hvalue
      case some.some => exact Eval.Parallel.push (Option.some.inj hvalue) store store' hstore

theorem Context.assign_parallel (hbase : context.base = context'.base) (place : Place) :
    Eval.Parallel context.globals context'.globals (· = ·) (context.assign place)
      (context'.assign place) := by
  cases place with
  | slot index type =>
      refine .bind .pop fun value value' hvalue => ?_
      refine .bind (.localCell hbase index) fun cell cell' hcell => ?_
      refine .andThen (.checkTag type hcell.2) fun _ => .andThen (.checkTag type hvalue) fun _ => ?_
      refine .changes fun store store' hstore => hstore.withStack ?_
      rw [Array.map_setIfInBounds, Array.map_setIfInBounds, hstore.stack, hcell.1, hvalue]
  | global name => exact .bind .pop fun value value' hvalue => assignGlobal_parallel name hvalue

end Variables

/-! ## Calls -/

namespace Eval

variable [Host ν] {body body' : Option (Func → Nat → Eval ν Unit)}

/-- Both bodies are missing, or they run functions that differ in their positions only alike. -/
def ParallelBodies (globals globals' : SlotTable)
    (body body' : Option (Func → Nat → Eval ν Unit)) : Prop :=
  Option.Rel (fun run run' => ∀ func func' base, func.unplaced = func'.unplaced →
    Parallel globals globals' (· = ·) (run func base) (run' func' base)) body body'

namespace Parallel

theorem native (hhost : Host.IgnoresPositions ν) (builtin : Builtin ν)
    {arguments arguments' : List (Value ν)}
    (harguments : arguments.map Value.unplaced = arguments'.map Value.unplaced) :
    Parallel globals globals' (· = ·) (Eval.native builtin arguments)
      (Eval.native builtin arguments') := by
  intro store store' hstore
  have hcall : Host.call builtin.native arguments = Host.call builtin.native arguments' := by
    rw [← hhost builtin.native arguments, harguments, hhost]
  unfold Eval.native
  rw [hcall, hstore.output]
  split
  · exact .ok rfl (hstore.withOutput _)
  · exact .error (hstore.withOutput _)
  · exact .error (hstore.withOutput _)

theorem callFunction {func func' : Func} {arguments arguments' : List (Value ν)}
    (hbody : ParallelBodies globals globals' body body') (hfunc : func.unplaced = func'.unplaced)
    (harguments : arguments.map Value.unplaced = arguments'.map Value.unplaced) (place : Nat) :
    Parallel globals globals' (· = ·) (callValue body place arguments (.function func))
      (callValue body' place arguments' (.function func')) := by
  have hcheck : Machine.checkArguments func arguments =
      Machine.checkArguments func' arguments' := by
    rw [← Machine.checkArguments_unplaced, hfunc, harguments, Machine.checkArguments_unplaced]
  unfold Eval.callValue
  dsimp only
  rw [hcheck]
  cases Machine.checkArguments func' arguments' with
  | error fault => exact .fail fault
  | ok =>
      cases hbody with
      | none => exact .fail _
      | some hrun =>
          exact .andThen (.enterFunction hfunc harguments place) fun _ => hrun _ _ _ hfunc

theorem callValue (hhost : Host.IgnoresPositions ν)
    (hbody : ParallelBodies globals globals' body body') {arguments arguments' : List (Value ν)}
    (harguments : arguments.map Value.unplaced = arguments'.map Value.unplaced)
    {value value' : Value ν} (hvalue : value.unplaced = value'.unplaced) (place : Nat) :
    Parallel globals globals' (· = ·) (Eval.callValue body place arguments value)
      (Eval.callValue body' place arguments' value') := by
  rcases Value.eq_or_functions_of_unplaced_eq hvalue with rfl | ⟨func, func', rfl, rfl, hfunc⟩
  · cases value with
    | int | str => exact .fail _
    | builtin builtin =>
        exact .andThen (.truncate place) fun _ => .native hhost builtin harguments
    | function func => exact .callFunction hbody rfl harguments place
  · exact .callFunction hbody hfunc harguments place

theorem call (hhost : Host.IgnoresPositions ν) (hbody : ParallelBodies globals globals' body body')
    (arguments : Nat) :
    Parallel globals globals' (· = ·) (Eval.call body arguments) (Eval.call body' arguments) := by
  intro store store' hstore
  have hcallee : (store.callee? arguments).map Value.unplaced =
      (store'.callee? arguments).map Value.unplaced := by
    unfold Store.callee?
    rw [hstore.size]
    split
    · exact hstore.getElem? _
    · rfl
  have harguments : ∀ place, (store.stack.toList.drop place).map Value.unplaced =
      (store'.stack.toList.drop place).map Value.unplaced := by
    intro place
    rw [List.map_drop, List.map_drop, ← Array.toList_map, ← Array.toList_map, hstore.stack]
  rw [Eval.call, Eval.call, get_bind, get_bind, hstore.size]
  cases hvalue : store.callee? arguments <;> cases hvalue' : store'.callee? arguments <;>
    rw [hvalue, hvalue'] at hcallee
  case none.none => exact .error hstore
  case none.some | some.none => cases hcallee
  case some.some =>
    exact Parallel.callValue hhost hbody (harguments _) (Option.some.inj hcallee) _ store store'
      hstore

end Parallel

end Eval

/-! ## Trees -/

/-- Two contexts with the same locals and rounds, in which calls do the same. -/
structure Context.Alike (context context' : Context ν) : Prop where
  base : context.base = context'.base
  rounds : context.rounds = context'.rounds
  call : ∀ arguments, Eval.Parallel context.globals context'.globals (· = ·)
    (context.call arguments) (context'.call arguments)

section Trees

variable {context context' : Context ν}

mutual

theorem Expr.eval_parallel (h : context.Alike context') (expression : Expr) :
    Eval.Parallel context.globals context'.globals (· = ·) (expression.eval context)
      (expression.eval context') := by
  match expression with
  | .literal value => exact .push rfl
  | .variable place => exact Context.load_parallel h.base place
  | .call callee arguments =>
      refine .andThen (callee.eval_parallel h) fun _ => ?_
      exact .andThen (Expr.evalAll_parallel h arguments) fun _ => h.call arguments.length
  | .binary left operator right =>
      refine .andThen (left.eval_parallel h) fun _ => ?_
      exact .andThen (right.eval_parallel h) fun _ => .operate operator

theorem Expr.evalAll_parallel (h : context.Alike context') (list : List Expr) :
    Eval.Parallel context.globals context'.globals (· = ·) (Expr.evalAll context list)
      (Expr.evalAll context' list) := by
  match list with
  | [] => exact .pure rfl
  | first :: rest =>
      exact .andThen (first.eval_parallel h) fun _ => Expr.evalAll_parallel h rest

end

mutual

theorem Stmt.exec_parallel (h : context.Alike context') (statement : Stmt) :
    Eval.Parallel context.globals context'.globals (· = ·) (statement.exec context)
      (statement.exec context') := by
  match statement with
  | .skip | .declare _ _ | .ret => exact .pure rfl
  | .branch test body =>
      refine .andThen (test.eval_parallel h) fun _ => .andThen .popInt fun n => ?_
      split
      · exact .pure rfl
      · exact Block.exec_parallel h body
  | .loop test body =>
      rw [Stmt.exec, Stmt.exec, h.rounds]
      exact .loop (test.eval_parallel h) (Block.exec_parallel h body) _
  | .assign target value =>
      refine .andThen (value.eval_parallel h) fun _ => ?_
      exact .andThen (Context.assign_parallel h.base target) fun _ => .pure rfl
  | .evaluate term =>
      refine .andThen (term.eval_parallel h) fun _ => ?_
      split
      · exact .pure rfl
      · exact .bind .pop fun _ _ _ => .pure rfl

theorem Block.exec_parallel (h : context.Alike context') (block : Block) :
    Eval.Parallel context.globals context'.globals (· = ·) (Block.exec context block)
      (Block.exec context' block) := by
  match block with
  | [] => exact .pure rfl
  | first :: rest =>
      refine .andThen (first.exec_parallel h) fun ending => ?_
      cases ending with
      | finished => exact Block.exec_parallel h rest
      | returned => exact .pure rfl

end

end Trees

/-! ## Runs -/

namespace Eval

variable [Host ν] {bodyOf bodyOf' : Func → Block}

/-- Calls do the same if functions that differ in their positions only have the same block. -/
theorem callAt_parallel (hhost : Host.IgnoresPositions ν)
    (hbodies : ∀ func func', func.unplaced = func'.unplaced → bodyOf func = bodyOf' func')
    (rounds depth arguments : Nat) :
    Parallel globals globals' (· = ·)
      (callAt globals bodyOf rounds depth arguments : Eval ν Unit)
      (callAt globals' bodyOf' rounds depth arguments) := by
  induction depth generalizing arguments with
  | zero => exact .call hhost .none arguments
  | succ depth ih =>
      refine .call hhost (.some ?_) arguments
      intro func func' base hfunc
      have hcontext : Context.Alike
          ⟨globals, some base, callAt globals bodyOf rounds depth, rounds⟩
          ⟨globals', some base, callAt globals' bodyOf' rounds depth, rounds⟩ := ⟨rfl, rfl, ih⟩
      unfold body
      rw [hbodies func func' hfunc]
      exact .andThen (Block.exec_parallel hcontext (bodyOf' func')) fun _ => .truncate base

/-- Running top-level code on stores that are alike ends in the same way. -/
theorem run_parallel (hhost : Host.IgnoresPositions ν)
    (hbodies : ∀ func func', func.unplaced = func'.unplaced → bodyOf func = bodyOf' func')
    (rounds : Nat) (main : Block) :
    Parallel globals globals' (· = ·) (run globals bodyOf rounds main : Eval ν Unit)
      (run globals' bodyOf' rounds main) := by
  have hcontext : Context.Alike ⟨globals, none, callAt globals bodyOf rounds callLimit, rounds⟩
      ⟨globals', none, callAt globals' bodyOf' rounds callLimit, rounds⟩ :=
    ⟨rfl, rfl, callAt_parallel hhost hbodies rounds callLimit⟩
  refine .andThen (Block.exec_parallel hcontext main) fun ending => ?_
  cases ending with
  | finished => exact .pure rfl
  | returned => exact .fail _

end Eval

end StackScript
