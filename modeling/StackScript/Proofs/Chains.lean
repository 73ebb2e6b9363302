import StackScript.Native
import StackScript.Proofs.Compilation
import StackScript.Proofs.LexicalGrammar
import StackScript.Proofs.Simulation

/-!
# Chains of operators

All operators have the same rank and group to the right. A chain of terms is evaluated in two
phases: first its terms are read from left to right, and then the operators are applied from right
to left. `Chain.evaluate` says so without a machine. The code of an assignment does the same, with
the same fault if there is one, and changes no global but its target.
-/

namespace StackScript

open Grammar

variable {ν : Type}

/-! ## What a chain means -/

/-- Terms with operators between them. -/
inductive Chain (α : Type) where
  | last (term : α)
  | link (term : α) (operator : Operator) (rest : Chain α)

/-- The number of terms. -/
def Chain.length {α : Type} : Chain α → Nat
  | .last _ => 1
  | .link _ _ rest => rest.length + 1

/-- The exact result of an operation. A quotient is rounded toward zero, and a comparison gives one
or zero. -/
def Operator.exact (operator : Operator) (left right : Int) : Int :=
  match operator with
  | .add => left + right
  | .sub => left - right
  | .mul => left * right
  | .div => left.tdiv right
  | .eq => if left = right then 1 else 0
  | .gt => if left > right then 1 else 0
  | .lt => if left < right then 1 else 0

/-- What an operation makes of two values: the exact result, wrapped around to 64 bits. If neither
is an integer, the right one is reported. -/
def Operator.operate (operator : Operator) : (left right : Value ν) → Except Fault (Value ν)
  | .int left, .int right =>
      if operator = .div ∧ right = 0 then .error .divisionByZero
      else .ok (.int (.ofInt (operator.exact left.toInt right.toInt)))
  | left, .int _ => .error (.typeMismatch .int left.tag)
  | _, right => .error (.typeMismatch .int right.tag)

/-- The value of a term: a constant, or what the global of that name holds. -/
def Grammar.Term.read (global? : String → Option (Value ν)) : Term → Except Fault (Value ν)
  | .number _ value _ => .ok (.int value)
  | .string text => .ok (.str text)
  | .identifier name =>
      match global? name with
      | some value => .ok value
      | none => .error (.unresolvedName name)

namespace Chain

/-- Reads the terms from left to right, up to the first one without a value. -/
def read (global? : String → Option (Value ν)) : Chain Term → Except Fault (Chain (Value ν))
  | .last term => return .last (← term.read global?)
  | .link term operator rest => return .link (← term.read global?) operator (← rest.read global?)

/-- Applies the operators from right to left, up to the first that fails. -/
def fold : Chain (Value ν) → Except Fault (Value ν)
  | .last value => .ok value
  | .link value operator rest => do operator.operate value (← rest.fold)

/-- The value of a chain. All terms are read before the first operator is applied. -/
def evaluate (global? : String → Option (Value ν)) (chain : Chain Term) :
    Except Fault (Value ν) := do
  (← chain.read global?).fold

theorem read_last_eq_error {global? : String → Option (Value ν)} {term : Term} {fault : Fault} :
    read global? (.last term) = .error fault ↔ term.read global? = .error fault := by
  rw [read]
  cases term.read global? with
  | ok value => exact iff_of_false nofun nofun
  | error found => simp [Bind.bind, Except.bind]

theorem read_link_eq_error {global? : String → Option (Value ν)} {term : Term}
    {operator : Operator} {rest : Chain Term} {fault : Fault} :
    read global? (.link term operator rest) = .error fault ↔
      term.read global? = .error fault ∨
        (∃ value, term.read global? = .ok value) ∧ rest.read global? = .error fault := by
  rw [read]
  cases term.read global? with
  | error found => simp [Bind.bind, Except.bind]
  | ok value => cases rest.read global? <;> simp [Bind.bind, Except.bind, Pure.pure, Except.pure]

theorem evaluate_eq_error_of_read {global? : String → Option (Value ν)} {chain : Chain Term}
    {fault : Fault} (h : chain.read global? = .error fault) :
    chain.evaluate global? = .error fault := by
  rw [evaluate, h]
  rfl

theorem evaluate_last (global? : String → Option (Value ν)) (term : Term) :
    evaluate global? (.last term) = term.read global? := by
  simp only [evaluate, read]
  cases term.read global? <;> rfl

/-- In the order of the code, the first term comes before the rest of the chain and the first
operator after it. -/
theorem evaluate_link (global? : String → Option (Value ν)) (term : Term) (operator : Operator)
    (rest : Chain Term) :
    evaluate global? (.link term operator rest) = (do
      let left ← term.read global?
      let right ← rest.evaluate global?
      operator.operate left right) := by
  simp only [evaluate, read]
  cases term.read global? with
  | error fault => rfl
  | ok left => cases rest.read global? <;> rfl

/-! ## The text of a chain -/

/-- The word that a chain of terms spells. -/
def word : Chain Term → List Terminal
  | .last term => [term.terminal]
  | .link term operator rest => term.terminal :: .operator operator.symbol :: rest.word

/-- The derivation of that word. -/
def expression : Chain Term → Expression
  | .last term => .plain term []
  | .link term operator rest => .operation term [] operator rest.expression

theorem word_expression (chain : Chain Term) : chain.expression.word = chain.word := by
  induction chain with
  | last term => simp [expression, word, Expression.word, callWord]
  | link term operator rest ih => simp [expression, word, Expression.word, callWord, ih]

theorem depth_expression (chain : Chain Term) : chain.expression.depth = chain.length := by
  induction chain with
  | last term => simp [expression, length, Expression.depth, callDepth]
  | link term operator rest ih => simp [expression, length, Expression.depth, callDepth, ih]

end Chain

/-! ## The code of a chain -/

/-- The instruction that reads a term outside of functions. -/
def Grammar.Term.load : Term → Instruction
  | .number _ value _ => .push (.int value)
  | .string text => .push (.str text)
  | .identifier name => .loadGlobal name

namespace Chain

/-- The code of a chain outside of functions. -/
def code : Chain Term → List Instruction
  | .last term => [term.load]
  | .link term operator rest => term.load :: (rest.code ++ [.binary operator])

theorem code_expression (chain : Chain Term) : (chain.expression.tree none).code = chain.code := by
  induction chain with
  | last term => cases term <;> rfl
  | link term operator rest ih =>
      rw [expression, Expression.tree, callTree, Expr.code, ih, code]
      cases term <;> rfl

theorem length_code (chain : Chain Term) : chain.code.length + 1 = 2 * chain.length := by
  induction chain with
  | last term => rfl
  | link term operator rest ih =>
      simp only [code, length, List.length_cons, List.length_append, List.length_nil]
      omega

end Chain

/-- The machine's arithmetic is exact arithmetic, wrapped around. -/
theorem Operator.apply_eq (operator : Operator) (left right : Int64) :
    operator.apply left right =
      if operator = .div ∧ right = 0 then .error .divisionByZero
      else .ok (.ofInt (operator.exact left.toInt right.toInt)) := by
  cases operator with
  | div =>
      have hquotient : Int64.ofInt (left.toInt.tdiv right.toInt) = left / right := by
        rw [← Int64.toInt_inj, Int64.toInt_div, Int64.toInt_ofInt]
      simp [apply, exact, hquotient]
  | add | sub | mul => simp [apply, exact]
  | eq =>
      simp only [apply, exact, Int64.toInt_inj]
      split <;> simp_all
  | gt | lt =>
      simp only [apply, exact, gt_iff_lt, ← Int64.lt_iff_toInt_lt]
      split <;> simp_all

/-- The quotient of the least integer and minus one wraps around to the least integer. -/
example : Operator.div.apply (-9223372036854775808) (-1) = .ok (-9223372036854775808) := by decide

theorem Operator.operate_of_right {operator : Operator} {left right : Value ν}
    (h : right.tag ≠ .int) :
    operator.operate left right = .error (.typeMismatch .int right.tag) := by
  cases right with
  | int => exact absurd rfl h
  | str | builtin | function => cases left <;> rfl

theorem Operator.operate_of_left {operator : Operator} {left : Value ν} {right : Int64}
    (h : left.tag ≠ .int) :
    operator.operate left (.int right) = .error (.typeMismatch .int left.tag) := by
  cases left with
  | int => exact absurd rfl h
  | str | builtin | function => rfl

theorem Value.eq_int_of_tag {value : Value ν} (h : value.tag = .int) : ∃ n, value = .int n := by
  cases value with
  | int n => exact ⟨n, rfl⟩
  | str | builtin | function => cases h

/-! ## Runs -/

namespace Machine

section Binary

variable {machine : Machine ν} {below : Array (Value ν)} {left right : Value ν}
  {operator : Operator}

theorem popInt_of_int {n : Int64} (hstack : machine.stack = below.push (.int n)) :
    popInt machine = .ok n { machine with stack := below } := by
  have hpop : pop machine = .ok (.int n) { machine with stack := below } := by
    simp [pop, hstack]
  exact bind_of_ok hpop

theorem popInt_of_other (hstack : machine.stack = below.push right) (htag : right.tag ≠ .int) :
    popInt machine = .error (.typeMismatch .int right.tag) { machine with stack := below } := by
  have hpop : pop machine = .ok right { machine with stack := below } := by
    simp [pop, hstack]
  rw [popInt, bind_of_ok hpop]
  cases right with
  | int n => exact absurd rfl htag
  | str | builtin | function => rfl

/-- The machine pops the right operand first, so it is also checked first. -/
theorem binary_operate (hstack : machine.stack = (below.push left).push right)
    (hroom : below.size < stackLimit) :
    (∀ value, operator.operate left right = .ok value →
      binary operator machine = .ok () { machine with stack := below.push value }) ∧
    ∀ fault, operator.operate left right = .error fault →
      ∃ stack, binary operator machine = .error fault { machine with stack } := by
  by_cases hright : right.tag = .int
  swap
  · have hpop := popInt_of_other hstack hright
    rw [Operator.operate_of_right hright]
    refine ⟨fun value h => ?_, fun fault h => ?_⟩ <;> cases h
    exact ⟨below.push left, bind_eq_error.2 (.inl hpop)⟩
  obtain ⟨right, rfl⟩ := Value.eq_int_of_tag hright
  have hpop := popInt_of_int hstack
  let popped : Machine ν := { machine with stack := below.push left }
  by_cases hleft : left.tag = .int
  swap
  · have hpop' : popInt popped = _ := popInt_of_other rfl hleft
    rw [Operator.operate_of_left hleft]
    refine ⟨fun value h => ?_, fun fault h => ?_⟩ <;> cases h
    exact ⟨below, bind_eq_error.2 (.inr ⟨_, _, hpop, bind_eq_error.2 (.inl hpop')⟩)⟩
  obtain ⟨left, rfl⟩ := Value.eq_int_of_tag hleft
  have hpop' : popInt popped = .ok left { machine with stack := below } := popInt_of_int rfl
  rw [binary, bind_of_ok hpop, bind_of_ok hpop', Operator.apply_eq, Operator.operate]
  split
  next hzero =>
    refine ⟨fun value h => ?_, fun fault h => ?_⟩ <;> cases h
    exact ⟨below, rfl⟩
  next =>
    refine ⟨fun value h => ?_, fun fault h => ?_⟩ <;> cases h
    exact if_pos hroom

end Binary

/-- Only the global that a cell belongs to sees a change of the cell. -/
theorem global?_setIfInBounds {program : Program ν} {machine : Machine ν} {name other : String}
    {slot : Nat} (hslot : program.globals.slot? name = some slot) (hdiffers : other ≠ name)
    (value : Value ν) :
    Machine.global? program
        { machine with memory := machine.memory.setIfInBounds slot value } other =
      machine.global? program other := by
  unfold global?
  cases hother : program.globals.slot? other with
  | none => rfl
  | some slot' =>
      have hne : slot ≠ slot' := by
        rintro rfl
        have hname := SlotTable.getElem?_of_slot? hslot
        rw [SlotTable.getElem?_of_slot? hother] at hname
        exact hdiffers (Option.some.inj hname)
      simp [Array.getElem?_setIfInBounds_ne hne]

variable [Host ν] {program : Program ν} {machine : Machine ν}

section Steps

variable {term : Term} (hcode : program.code[machine.pc]? = some term.load)
include hcode

theorem step_load {value : Value ν} (hread : term.read (machine.global? program) = .ok value)
    (hroom : machine.stack.size < stackLimit) :
    machine.step program = .running { machine with
      pc := machine.pc + 1
      stack := machine.stack.push value } := by
  have hpush : push value machine = .ok () { machine with stack := machine.stack.push value } :=
    if_pos hroom
  rw [step_eq_advance hcode]
  cases term with
  | number | string =>
      cases hread
      simp only [advance, Term.load, perform, Value.ofLiteral, bind_of_ok hpush]
      rfl
  | identifier name =>
      cases hheld : machine.global? program name with
      | none =>
          rw [Term.read, hheld] at hread
          cases hread
      | some held =>
          rw [Term.read, hheld] at hread
          cases hread
          have hload : loadGlobal program name machine =
              .ok () { machine with stack := machine.stack.push value } := by
            rw [loadGlobal, get_bind, hheld]
            exact hpush
          simp only [advance, Term.load, perform, bind_of_ok hload]
          rfl

theorem step_load_of_unread {fault : Fault}
    (hread : term.read (machine.global? program) = .error fault) :
    machine.step program = .stopped (.failed ⟨machine.pc, fault⟩) machine := by
  rw [step_eq_advance hcode]
  cases term with
  | number | string => cases hread
  | identifier name =>
      cases hheld : machine.global? program name with
      | some held =>
          rw [Term.read, hheld] at hread
          cases hread
      | none =>
          rw [Term.read, hheld] at hread
          cases hread
          have hload : loadGlobal program name machine = .error (.unresolvedName name) machine := by
            rw [loadGlobal, get_bind, hheld]
            rfl
          have hperform : perform program (.loadGlobal name) machine = _ :=
            bind_eq_error.2 (.inl hload)
          simp only [advance, Term.load, hperform]

end Steps

theorem run_add_of_running {fuel more : Nat} {machine' : Machine ν}
    (h : machine.run program fuel = .running machine') :
    machine.run program (fuel + more) = machine'.run program more := by
  rw [run_add, h]

theorem step_binary {operator : Operator} {machine' : Machine ν}
    (hcode : program.code[machine.pc]? = some (.binary operator))
    (h : binary operator machine = .ok () machine') :
    machine.step program = .running { machine' with pc := machine'.pc + 1 } := by
  simp only [step_eq_advance hcode, advance, perform, bind_of_ok h]
  rfl

theorem step_binary_of_error {operator : Operator} {fault : Fault} {machine' : Machine ν}
    (hcode : program.code[machine.pc]? = some (.binary operator))
    (h : binary operator machine = .error fault machine') :
    machine.step program = .stopped (.failed ⟨machine'.pc, fault⟩) machine' := by
  have hperform : perform program (.binary operator) machine = _ := bind_eq_error.2 (.inl h)
  simp only [step_eq_advance hcode, advance, hperform]

/-- How a run over the code of a chain ends: with the value on the stack and all else as it was, or
with a fault. One of the first `chain.length` instructions fails exactly if a term has no value. -/
inductive Evaluated (program : Program ν) (machine : Machine ν) (chain : Chain Term) :
    Except Fault (Value ν) → Prop
  | ok {value : Value ν}
      (run : machine.run program chain.code.length = .running { machine with
        pc := machine.pc + chain.code.length
        stack := machine.stack.push value }) :
      Evaluated program machine chain (.ok value)
  | error {fault : Fault} {index : Nat} {stack : Array (Value ν)}
      (run : machine.run program chain.code.length =
        .stopped (.failed ⟨index, fault⟩) { machine with pc := index, stack })
      (phase : index < machine.pc + chain.length ↔
        chain.read (machine.global? program) = .error fault) :
      Evaluated program machine chain (.error fault)

/-- The rest of a chain is evaluated on top of its first term, and then the first operator is
applied. -/
theorem Evaluated.link {term : Term} {operator : Operator} {rest : Chain Term} {left : Value ν}
    {result : Except Fault (Value ν)}
    (hcode : program.Holds machine.pc (Chain.link term operator rest).code)
    (hread : term.read (machine.global? program) = .ok left)
    (hroom : machine.stack.size < stackLimit)
    (hresult : rest.evaluate (machine.global? program) = result)
    (hrest : Evaluated program
      { machine with pc := machine.pc + 1, stack := machine.stack.push left } rest result) :
    Evaluated program machine (.link term operator rest)
      (do operator.operate left (← result)) := by
  have hlength : (Chain.link term operator rest).code.length = 1 + (rest.code.length + 1) := by
    simp [Chain.code, Nat.add_comm]
  let loaded : Machine ν := { machine with
    pc := machine.pc + 1
    stack := machine.stack.push left }
  have hloaded : machine.run program (1 + (rest.code.length + 1)) =
      loaded.run program (rest.code.length + 1) :=
    run_add_of_running (run_one (step_load hcode.head hread hroom))
  -- the terms of the chain can be read exactly if those of the rest can
  have hphase {fault : Fault} :
      (Chain.link term operator rest).read (machine.global? program) = .error fault ↔
        rest.read (machine.global? program) = .error fault := by
    rw [Chain.read_link_eq_error, hread]
    simp
  cases hrest with
  | @error fault index stack hrun hindex =>
      have hstopped := run_of_le hrun (Nat.le_succ rest.code.length)
      refine .error (by rw [hlength, hloaded]; exact hstopped) ?_
      rw [hphase, Chain.length, Nat.add_comm rest.length, ← Nat.add_assoc]
      exact hindex
  | @ok right hrun =>
      have hoperator : program.code[machine.pc + 1 + rest.code.length]? = some (.binary operator) :=
        hcode.tail.right.head
      let evaluated : Machine ν := { machine with
        pc := machine.pc + 1 + rest.code.length
        stack := (machine.stack.push left).push right }
      have hevaluated : loaded.run program (rest.code.length + 1) = evaluated.run program 1 :=
        run_add_of_running hrun
      have hstack : evaluated.stack = (machine.stack.push left).push right := rfl
      obtain ⟨hok, hfails⟩ := binary_operate hstack hroom
      change Evaluated program machine _ (operator.operate left right)
      cases hoperate : operator.operate left right with
      | ok value =>
          have hstep := step_binary hoperator (hok value hoperate)
          refine .ok ?_
          rw [hlength, hloaded, hevaluated, run_one hstep]
          simp only [evaluated, Nat.add_assoc]
      | error fault =>
          obtain ⟨stack, hbinary⟩ := hfails fault hoperate
          have hstep := step_binary_of_error hoperator hbinary
          refine .error (by rw [hlength, hloaded, hevaluated, run_one_stopped hstep]) ?_
          -- the operator stands behind all terms, and these could be read
          have hsize := rest.length_code
          refine iff_of_false (by simp only [evaluated, Chain.length]; omega) fun hunread => ?_
          cases hresult.symm.trans (Chain.evaluate_eq_error_of_read (hphase.1 hunread))

/-- The code of a chain does what the chain means. The operands of the operators that are still to
be applied stay below on the stack. -/
theorem run_chain (chain : Chain Term) (hcode : program.Holds machine.pc chain.code)
    (hroom : machine.stack.size + chain.length ≤ stackLimit) :
    Evaluated program machine chain (chain.evaluate (machine.global? program)) := by
  induction chain generalizing machine with
  | last term =>
      rw [Chain.evaluate_last]
      cases hread : term.read (machine.global? program) with
      | ok value => exact .ok (run_one (step_load hcode.head hread hroom))
      | error fault =>
          refine .error (run_one_stopped (step_load_of_unread hcode.head hread)) ?_
          exact iff_of_true (Nat.lt_succ_self _) (Chain.read_last_eq_error.2 hread)
  | link term operator rest ih =>
      have hroom' : machine.stack.size < stackLimit := by
        rw [Chain.length] at hroom
        omega
      rw [Chain.evaluate_link]
      cases hread : term.read (machine.global? program) with
      | error fault =>
          have hstep := step_load_of_unread hcode.head hread
          refine .error (by rw [Chain.code, List.length_cons, run, hstep]) ?_
          exact iff_of_true (Nat.lt_add_of_pos_right (Nat.succ_pos _))
            (Chain.read_link_eq_error.2 (.inl hread))
      | ok left =>
          refine .link hcode hread hroom' rfl (ih hcode.tail.left ?_)
          simpa [Chain.length, Nat.add_assoc, Nat.add_comm 1] using hroom

/-! ## Assignments of chains -/

theorem step_assignGlobal {name : String} {slot : Nat} {below : Array (Value ν)} {value : Value ν}
    (hcode : program.code[machine.pc]? = some (.assignGlobal name))
    (hstack : machine.stack = below.push value) (hslot : program.globals.slot? name = some slot)
    (hcell : slot < machine.memory.size) :
    machine.step program = .running { machine with
      pc := machine.pc + 1
      stack := below
      memory := machine.memory.setIfInBounds slot value } := by
  let popped : Machine ν := { machine with stack := below }
  have hpop : pop machine = .ok value popped := by
    simp [pop, hstack, popped]
  have hfound : globalSlot program name popped = .ok slot popped := by
    simp only [globalSlot, hslot]
    exact if_pos hcell
  have hassign : assignGlobal program name machine = .ok () { machine with
      stack := below
      memory := machine.memory.setIfInBounds slot value } := by
    rw [assignGlobal, bind_of_ok hpop, bind_of_ok hfound]
    rfl
  simp only [step_eq_advance hcode, advance, perform, bind_of_ok hassign]
  rfl

end Machine

theorem Program.holds_of_append {program : Program ν} {before : Array Instruction}
    {fragment : List Instruction} (h : program.code = before ++ fragment.toArray) :
    program.Holds before.size fragment := by
  intro index instruction hindex
  rw [h, Array.getElem?_append_right (Nat.le_add_right _ _), Nat.add_sub_cancel_left]
  simpa using hindex

/-- The tokens of an assignment of a chain are read as its derivation. -/
theorem Chain.derives_assign {chain : Chain Term} (hlength : chain.length ≤ nestingLimit)
    {target : String} (hfree : target ∉ keywords) {tokens : List Token}
    (hspelled : (Token.beforeEnd tokens).map Token.terminal =
      .identifier target :: .assign :: chain.word) :
    Derives tokens none [.assign target hfree chain.expression] := by
  refine ⟨?_, ?_, ?_⟩
  · simp [blockWord, Statement.word, chain.word_expression, hspelled]
  · simp [BlockDeclares, Statement.Declares]
  · simpa [blockDepth, Statement.depth, chain.depth_expression] using hlength

/-- An assignment of a chain compiles to the code of the chain and one instruction more. -/
theorem Chain.build_assign (builder : Builder ν) {chain : Chain Term}
    (hlength : chain.length ≤ nestingLimit) {target : String} (hfree : target ∉ keywords)
    {source : String} {tokens : List Token} (htokens : Token.tokenize source = .ok tokens)
    (hspelled : (Token.beforeEnd tokens).map Token.terminal =
      .identifier target :: .assign :: chain.word) (events : Array Event) :
    ∃ program events', builder.build source events = .ok program events' ∧
      program.globals = builder.globals ∧
      program.code.size = program.entry + (chain.code.length + 1) ∧
      program.Holds program.entry (chain.code ++ [.assignGlobal target]) := by
  have hderives := derives_assign hlength hfree hspelled
  obtain ⟨_, hblock⟩ := Build.block_of_admits (Build.admits_iff_derives.2 hderives)
    builder.code.size events
  rw [← Token.tokenize_eq_ok.1 htokens] at hblock
  obtain ⟨program, events', hbuild⟩ := Builder.buildOfItems_of_block hblock
  obtain ⟨tree, locals, _, hread, rfl⟩ := Builder.buildOfItems_ok hbuild
  rw [hblock] at hread
  cases hread
  have hcode : Block.code builder.code.size
      (blockTree none [.assign target hfree chain.expression]) =
      chain.code ++ [.assignGlobal target] := by
    simp [blockTree, Statement.tree, Block.code, Stmt.code, chain.code_expression, place,
      Place.store]
  refine ⟨_, events', hbuild, rfl, ?_, ?_⟩
  · simp [hcode]
  · exact Program.holds_of_append (by rw [hcode])

section Assign

variable [Host ν] {program : Program ν} {machine : Machine ν} {chain : Chain Term}
  {target : String}

/-- A chain with a value is assigned, and then the code is at its end. -/
theorem Machine.run_assign {slot : Nat} {value : Value ν}
    (hcode : program.Holds machine.pc (chain.code ++ [.assignGlobal target]))
    (hend : program.code.size = machine.pc + (chain.code.length + 1))
    (hroom : machine.stack.size + chain.length ≤ stackLimit)
    (hslot : program.globals.slot? target = some slot) (hcell : slot < machine.memory.size)
    (hvalue : chain.evaluate (machine.global? program) = .ok value) :
    machine.run program (2 * chain.length + 1) = .stopped .completed { machine with
      pc := program.code.size
      memory := machine.memory.setIfInBounds slot value } := by
  have hevaluated := run_chain chain hcode.left hroom
  rw [hvalue] at hevaluated
  cases hevaluated with
  | ok hrun =>
      have hassign : program.code[machine.pc + chain.code.length]? = some (.assignGlobal target) :=
        hcode.right.head
      let evaluated : Machine ν := { machine with
        pc := machine.pc + chain.code.length
        stack := machine.stack.push value }
      let assigned : Machine ν := { machine with
        pc := machine.pc + chain.code.length + 1
        memory := machine.memory.setIfInBounds slot value }
      have hstep : evaluated.step program = .running assigned :=
        step_assignGlobal hassign rfl hslot hcell
      have hdone : assigned.step program = .stopped .completed assigned := by
        have hnone : program.code[assigned.pc]? = none :=
          Array.getElem?_eq_none (by rw [hend]; simp only [assigned]; omega)
        rw [step, hnone]
      have hfuel : 2 * chain.length + 1 = chain.code.length + (1 + 1) := by
        have := chain.length_code
        omega
      rw [hfuel, run_add_of_running hrun, run_add_of_running (run_one hstep),
        run_one_stopped hdone, hend]
      rfl

/-- A chain without a value is not assigned. -/
theorem Machine.run_assign_of_error {fault : Fault}
    (hcode : program.Holds machine.pc (chain.code ++ [.assignGlobal target]))
    (hroom : machine.stack.size + chain.length ≤ stackLimit)
    (hfails : chain.evaluate (machine.global? program) = .error fault) :
    ∃ index stack, machine.run program (2 * chain.length + 1) =
        .stopped (.failed ⟨index, fault⟩) { machine with pc := index, stack } ∧
      (index < machine.pc + chain.length ↔
        chain.read (machine.global? program) = .error fault) := by
  have hevaluated := run_chain chain hcode.left hroom
  rw [hfails] at hevaluated
  cases hevaluated with
  | @error _ index stack hrun hphase =>
      have hfuel : chain.code.length ≤ 2 * chain.length + 1 := by
        have := chain.length_code
        omega
      exact ⟨index, stack, run_of_le hrun hfuel, hphase⟩

end Assign

theorem SlotTable.lt_size_of_slot? {table : SlotTable} {name : String} {slot : Nat}
    (h : table.slot? name = some slot) : slot < table.size := by
  obtain ⟨entry, hentry, -⟩ := Option.map_eq_some_iff.1 (getElem?_of_slot? h)
  exact (List.getElem?_eq_some_iff.1 hentry).1

/-- With a cell for every global, exactly the names that are not declared have no value. -/
theorem Machine.global?_eq_none_iff {program : Program ν} {machine : Machine ν}
    (hcells : machine.memory.size = program.globals.size) (name : String) :
    machine.global? program name = none ↔ program.globals.slot? name = none := by
  unfold global?
  cases hslot : program.globals.slot? name with
  | none => simp
  | some slot =>
      have hcell := SlotTable.lt_size_of_slot? hslot
      simp only [Option.bind_some, reduceCtorEq, iff_false]
      rw [Array.getElem?_eq_getElem (by omega)]
      simp

/-- Top-level code that assigns a chain of at most 256 terms to a global, compiled with any globals
and run from an empty stack with any values in them. It compiles. If the chain has a value the run
completes, the target holds the value and every other global what it held. If not, the run fails
with the fault of the chain and no global is changed; the instruction that fails is among those of
the terms if a term has no value, and behind them if an operator cannot be applied. -/
theorem Chain.assign_to_global [Host ν] (builder : Builder ν) (chain : Chain Term)
    (hlength : chain.length ≤ 256) {target : String} {slot : Nat} (hfree : target ∉ keywords)
    (hslot : builder.globals.slot? target = some slot) {source : String} {tokens : List Token}
    (htokens : Token.tokenize source = .ok tokens)
    (hspelled : (Token.beforeEnd tokens).map Token.terminal =
      .identifier target :: .assign :: chain.word) (events : Array Event) :
    ∃ program events', builder.build source events = .ok program events' ∧
      ∀ machine : Machine ν, machine.pc = program.entry → machine.stack = #[] →
        machine.memory.size = builder.globals.size →
        (∀ name, machine.global? program name = none ↔ builder.globals.slot? name = none) ∧
        (∀ value, chain.evaluate (machine.global? program) = .ok value →
          ∃ after, machine.run program (2 * chain.length + 1) = .stopped .completed after ∧
            after.global? program target = some value ∧
            (∀ name, name ≠ target → after.global? program name = machine.global? program name) ∧
            after.stack = #[] ∧ after.frames = machine.frames ∧ after.output = machine.output) ∧
        ∀ fault, chain.evaluate (machine.global? program) = .error fault →
          ∃ index after, machine.run program (2 * chain.length + 1) =
              .stopped (.failed ⟨index, fault⟩) after ∧
            after.memory = machine.memory ∧ after.frames = machine.frames ∧
            after.output = machine.output ∧
            (index < program.entry + chain.length ↔
              chain.read (machine.global? program) = .error fault) := by
  obtain ⟨program, events', hbuild, hglobals, hsize, hcode⟩ :=
    build_assign builder hlength hfree htokens hspelled events
  refine ⟨program, events', hbuild, fun machine hpc hstack hcells => ?_⟩
  have hcell : slot < machine.memory.size := hcells ▸ SlotTable.lt_size_of_slot? hslot
  have hroom : machine.stack.size + chain.length ≤ stackLimit := by
    rw [hstack, stackLimit, Array.size_empty]
    omega
  rw [← hglobals] at hslot hcells ⊢
  rw [← hpc] at hsize hcode ⊢
  refine ⟨Machine.global?_eq_none_iff hcells, fun value hvalue => ?_, fun fault hfault => ?_⟩
  · refine ⟨_, Machine.run_assign hcode hsize hroom hslot hcell hvalue, ?_, ?_, hstack, rfl, rfl⟩
    · simp [Machine.global?, hslot, hcell]
    · exact fun name hdiffers => Machine.global?_setIfInBounds hslot hdiffers value
  · obtain ⟨index, stack, hrun, hphase⟩ := Machine.run_assign_of_error hcode hroom hfault
    exact ⟨index, _, hrun, rfl, rfl, rfl, hphase⟩

/-- Operators group to the right: one minus, five minus two, is minus two. -/
theorem Chain.assign_to_global_subtractions :
    ∃ (builder : Builder Native) (program : Program Native) (after : Machine Native)
      (events : Array Event),
      builder.globals = ⟨[⟨"r", .int⟩, ⟨"x", .int⟩]⟩ ∧ builder.memory = #[.str "old", .int 5] ∧
      builder.build "r = 1 - x - 2" #[] = .ok program events ∧
      (Machine.start program {}).run program 7 = .stopped .completed after ∧
      after.global? program "r" = some (.int (-2)) ∧ after.global? program "x" = some (.int 5) ∧
      after.stack = #[] := by
  let builder : Builder Native :=
    { globals := ⟨[⟨"r", .int⟩, ⟨"x", .int⟩]⟩, memory := #[.str "old", .int 5] }
  have hone : Parser.numberValue? "1" = some 1 := by cbv
  have htwo : Parser.numberValue? "2" = some 2 := by cbv
  let chain : Chain Term :=
    .link (.number "1" 1 hone) .sub (.link (.identifier "x") .sub (.last (.number "2" 2 htwo)))
  have htokens : Token.tokenize "r = 1 - x - 2" = .ok [⟨.identifier, "r", 1⟩, ⟨.assign, "=", 1⟩,
      ⟨.number, "1", 1⟩, ⟨.operator, "-", 1⟩, ⟨.identifier, "x", 1⟩, ⟨.operator, "-", 1⟩,
      ⟨.number, "2", 1⟩, .eof 1] := by cbv
  have hlength : chain.length ≤ 256 := Nat.le_of_ble_eq_true rfl
  let program : Program Native :=
    { code := #[.push (.int 1), .loadGlobal "x", .push (.int 2), .binary .sub, .binary .sub,
        .assignGlobal "r"]
      globals := builder.globals
      memory := builder.memory }
  have hprogram : builder.build "r = 1 - x - 2" #[] = .ok program #[.mainCompiled 0 6] := by cbv
  obtain ⟨found, events, hbuild, hruns⟩ := Chain.assign_to_global builder chain hlength
    (by decide) rfl htokens rfl #[]
  obtain ⟨rfl, rfl⟩ := EStateM.Result.ok.inj (hprogram.symm.trans hbuild)
  obtain ⟨-, hvalue, -⟩ := hruns (Machine.start program {}) rfl rfl rfl
  obtain ⟨after, hrun, htarget, hothers, hstack, -, -⟩ := hvalue (.int (-2)) rfl
  exact ⟨builder, program, after, _, rfl, rfl, hbuild, hrun, htarget, hothers "x" (by decide),
    hstack⟩

end StackScript
