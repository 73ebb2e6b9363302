import StackScript.Proofs.Assembly
import StackScript.Proofs.BytePositions
import StackScript.Proofs.Representation

/-!
# Operations that fail

Operations change one assembly in place, one after the other, and some of them fail. One that fails
leaves the assembly exactly as it was, so leaving out those that fail changes nothing.
-/

namespace StackScript

variable {ν : Type}

/-! ## Operations -/

/-- Performs an operation in place. -/
def Assemble.perform : Operation ν → Assemble ν Answer
  | .global name type => return .slot (← declare name type (.initial type))
  | .builtin native => return .slot (← declare native.name .builtin (.builtin native))
  | .reserve name => return .slot (← declare name .function (.initial .function))
  | .function signature body => do
      let items ← ByteScanner.scan body
      return .func (← functionOfItems signature items)
  | .functionOfItems signature body => return .func (← functionOfItems signature body)

/-- An answer of an operation, with the builder after it. -/
theorem Builder.outcome_answer {α : Type} (answer : α → Answer)
    (operation : Build (α × Builder ν)) (events : Array Event) :
    Checked.outcome ((operation >>= fun (value, builder) => pure (answer value, builder)) events) =
      (Checked.outcome (operation events)).map fun result => (answer result.1, result.2) := by
  simp only [bind, EStateM.bind]
  cases operation events <;> rfl

/-- Performing an operation in place. -/
theorem Assembly.Shows.perform {assembly : Assembly ν} {builder : Builder ν}
    (h : assembly.Shows builder) (htidy : builder.Tidy) (operation : Operation ν)
    (events : Array Event) :
    assembly.Follows (Assemble.perform operation)
      (Checked.outcome (builder.perform operation events)) := by
  cases operation with
  | global name type =>
      unfold Builder.perform
      rw [Builder.outcome_answer, Checked.outcome_liftM]
      exact (h.declare name type (.initial type)).map Answer.slot
  | builtin native =>
      unfold Builder.perform
      rw [Builder.outcome_answer, Checked.outcome_liftM]
      exact (h.declare native.name .builtin (.builtin native)).map Answer.slot
  | reserve name =>
      unfold Builder.perform
      rw [Builder.outcome_answer, Checked.outcome_liftM]
      exact (h.declare name .function (.initial .function)).map Answer.slot
  | function signature body =>
      simp only [Assemble.perform, ByteScanner.scan_eq, pure_bind]
      unfold Builder.perform
      rw [Builder.outcome_answer]
      exact (h.functionOfItems htidy signature (Token.scan body) events).map Answer.func
  | functionOfItems signature body =>
      unfold Builder.perform
      rw [Builder.outcome_answer]
      exact (h.functionOfItems htidy signature body events).map Answer.func

/-- An operation that succeeds makes the next builder. -/
theorem Builder.Made.perform {builder builder' : Builder ν} (h : builder.Made)
    {operation : Operation ν} {answer : Answer} {events events' : Array Event}
    (hperform : builder.perform operation events = .ok (answer, builder') events') :
    builder'.Made := by
  cases operation <;> obtain ⟨⟨_, _⟩, _, hfirst, hresult⟩ := bind_eq_ok.1 hperform <;>
    cases (pure_eq_ok.1 hresult).1
  case global => exact .global h (liftM_eq_ok.1 hfirst).1
  case builtin => exact .builtin h (liftM_eq_ok.1 hfirst).1
  case reserve => exact .reserve h (liftM_eq_ok.1 hfirst).1
  case function => exact .function h hfirst
  case functionOfItems => exact .function h hfirst

/-! ## Runs of operations -/

namespace Assembly

/-- Performs operations in place one after the other, whatever becomes of each. -/
def performAll (assembly : Assembly ν) :
    List (Operation ν) → List (Except (Stop CompileError) Answer) × Assembly ν
  | [] => ([], assembly)
  | first :: rest =>
      match Assemble.perform first assembly with
      | .ok answer assembly =>
          let (answers, assembly) := assembly.performAll rest
          (.ok answer :: answers, assembly)
      | .error stop assembly =>
          let (answers, assembly) := assembly.performAll rest
          (.error stop :: answers, assembly)

/-- The operations that succeed. -/
def successes (assembly : Assembly ν) (operations : List (Operation ν)) : List (Operation ν) :=
  ((operations.zip (assembly.performAll operations).1).filter (·.2.isOk)).map (·.1)

section Steps

variable {assembly after : Assembly ν} {first : Operation ν} (rest : List (Operation ν))

theorem performAll_ok {answer : Answer} (h : Assemble.perform first assembly = .ok answer after) :
    assembly.performAll (first :: rest) =
      (.ok answer :: (after.performAll rest).1, (after.performAll rest).2) := by
  simp only [performAll, h]

theorem performAll_error {stop : Stop CompileError}
    (h : Assemble.perform first assembly = .error stop after) :
    assembly.performAll (first :: rest) =
      (.error stop :: (after.performAll rest).1, (after.performAll rest).2) := by
  simp only [performAll, h]

theorem successes_ok {answer : Answer} (h : Assemble.perform first assembly = .ok answer after) :
    assembly.successes (first :: rest) = first :: after.successes rest := by
  simp [successes, performAll_ok rest h, Except.isOk, Except.toBool]

theorem successes_error {stop : Stop CompileError}
    (h : Assemble.perform first assembly = .error stop after) :
    assembly.successes (first :: rest) = after.successes rest := by
  simp [successes, performAll_error rest h, Except.isOk, Except.toBool]

end Steps

variable {assembly : Assembly ν} {builder builder' : Builder ν}

/-- There is one builder that has what an assembly has. -/
theorem Shows.unique (h : assembly.Shows builder) (h' : assembly.Shows builder') :
    builder = builder' := by
  obtain ⟨code, globals, memory⟩ := builder
  cases h.code.symm.trans h'.code
  cases h.globals.symm.trans h'.globals
  cases h.memory.symm.trans h'.memory
  rfl

/-- An operation in place ends with what some builder has, or leaves the assembly as it was. -/
theorem Shows.perform_cases (h : assembly.Shows builder) (hmade : builder.Made)
    (operation : Operation ν) :
    (∃ answer after builder', Assemble.perform operation assembly = .ok answer after ∧
      after.Shows builder' ∧ builder'.Made) ∨
    ∃ error, Assemble.perform operation assembly = .error (.error error) assembly := by
  obtain ⟨bodies, hlayout⟩ := hmade.exists_layout
  have hfollows := h.perform hlayout.tidy operation #[]
  cases hperform : builder.perform operation #[] with
  | ok result events =>
      rw [hperform] at hfollows
      obtain ⟨after, hafter, hshows⟩ := hfollows
      exact .inl ⟨result.1, after, result.2, hafter, hshows, hmade.perform hperform⟩
  | error error events =>
      rw [hperform] at hfollows
      exact .inr ⟨error, hfollows⟩

/-- Operations in place give the answers that they give on a builder, and end with what the builder
has. -/
theorem Shows.performAll (h : assembly.Shows builder) (hmade : builder.Made)
    (operations : List (Operation ν)) (events : Array Event) :
    (assembly.performAll operations).1 =
        (builder.performAll operations events).1.map (Except.mapError Stop.error) ∧
      (assembly.performAll operations).2.Shows (builder.performAll operations events).2 ∧
      (builder.performAll operations events).2.Made := by
  induction operations generalizing assembly builder events with
  | nil => exact ⟨rfl, h, hmade⟩
  | cons first rest ih =>
      obtain ⟨bodies, hlayout⟩ := hmade.exists_layout
      have hfollows := h.perform hlayout.tidy first events
      unfold Builder.performAll
      cases hperform : builder.perform first events with
      | ok result events' =>
          obtain ⟨answer, next⟩ := result
          rw [hperform] at hfollows
          obtain ⟨after, hafter, hshows⟩ := hfollows
          obtain ⟨hanswers, hlast⟩ := ih hshows (hmade.perform hperform) events'
          rw [performAll_ok rest hafter]
          exact ⟨congrArg (.ok answer :: ·) hanswers, hlast⟩
      | error error events' =>
          rw [hperform] at hfollows
          obtain ⟨hanswers, hlast⟩ := ih h hmade events'
          rw [performAll_error rest hfollows]
          exact ⟨congrArg (.error (.error error) :: ·) hanswers, hlast⟩

/-- Without the operations that fail, the others have the same answers and the end is the same. -/
theorem Shows.performAll_successes (h : assembly.Shows builder) (hmade : builder.Made)
    (operations : List (Operation ν)) :
    assembly.performAll (assembly.successes operations) =
      ((assembly.performAll operations).1.filter Except.isOk,
        (assembly.performAll operations).2) := by
  induction operations generalizing assembly builder with
  | nil => rfl
  | cons first rest ih =>
      rcases h.perform_cases hmade first with
        ⟨answer, after, builder', hfirst, hshows, hmade'⟩ | ⟨error, hfirst⟩
      · rw [successes_ok rest hfirst, performAll_ok _ hfirst, performAll_ok rest hfirst,
          ih hshows hmade']
        rfl
      -- the assembly is the one before the failure, so the hypothesis is used where we are
      · rw [successes_error rest hfirst, performAll_error rest hfirst, ih h hmade]
        rfl

/-- What operations give in place says what they give on a builder, whatever was reported before. -/
theorem Shows.builder_performAll (h : assembly.Shows builder) (hmade : builder.Made)
    {operations : List (Operation ν)} {answered : List (Except CompileError Answer)}
    (hanswers : (assembly.performAll operations).1 = answered.map (Except.mapError Stop.error))
    (hshows : (assembly.performAll operations).2.Shows builder') (events : Array Event) :
    builder.performAll operations events = (answered, builder') := by
  obtain ⟨hanswers', hshows', -⟩ := h.performAll hmade operations events
  have hinjective : Function.Injective
      (Except.mapError Stop.error : Except CompileError Answer → _) := by
    rintro (error | answer) (error' | answer') heq <;> cases heq <;> rfl
  apply Prod.ext
  · apply hinjective.list_map
    rw [← hanswers', hanswers]
  · exact hshows'.unique hshows

/-- After any operations, one that fails leaves everything as it was. So the operations that
succeed, without the others, have the same answers and end with the same program. All of them have
the answers that they have on a builder, which changes nothing in place. -/
theorem failures_leave_no_trace (operations : List (Operation ν)) :
    ∃ answers assembly answered builder,
      performAll {} operations = (answers, assembly) ∧
      (∀ operation stop after, Assemble.perform operation assembly = .error stop after →
        after = assembly) ∧
      performAll {} (successes {} operations) = (answers.filter Except.isOk, assembly) ∧
      answers = answered.map (Except.mapError Stop.error) ∧ assembly.Shows builder ∧
      ∀ events, Builder.performAll {} operations events = (answered, builder) ∧
        Builder.performAll {} (successes {} operations) events =
          (answered.filter Except.isOk, builder) ∧
        ∀ main, (Checked.outcome (Assemble.build main assembly)).map IndexedProgram.program =
          (Checked.outcome (builder.buildOfItems main events)).mapError Stop.error := by
  obtain ⟨hanswers, hshows, hmade⟩ := shows_empty.performAll .empty operations #[]
  have hsuccesses := shows_empty.performAll_successes .empty operations
  refine ⟨_, _, _, _, rfl, ?_, hsuccesses, hanswers, hshows, fun events => ⟨?_, ?_, ?_⟩⟩
  · intro operation stop after hperform
    rcases hshows.perform_cases hmade operation with ⟨_, _, _, hok, -⟩ | ⟨_, herror⟩
    · cases hperform.symm.trans hok
    · cases hperform.symm.trans herror
      rfl
  · exact shows_empty.builder_performAll .empty hanswers hshows events
  · apply shows_empty.builder_performAll .empty
    · have hisOk : Except.isOk ∘ (Except.mapError Stop.error : Except CompileError Answer → _) =
          Except.isOk := by
        funext answer
        cases answer <;> rfl
      simp only [hsuccesses, hanswers, List.filter_map, hisOk]
    · rw [hsuccesses]
      exact hshows
  · exact fun main => (hshows.build main events).map_program

end Assembly

end StackScript
