import StackScript.Proofs.FailedOperations
import StackScript.Proofs.MachineBounds
import StackScript.Proofs.ScriptAssembly

/-!
# No operation outside its domain

A text is read by byte positions and a script by index, programs are put together in place, and the
machine works on its stack by index. All these accesses can be checked, and nothing changes: every
outcome is that of the computations that use no partial operation at all. So no check ever fails.
-/

namespace StackScript

variable {ν : Type} [Host ν]

/-- With a map that fits its globals, a program runs with all accesses checked as it does without
the checks, from every state. -/
def IndexedProgram.RunsChecked (program : IndexedProgram ν) : Prop :=
  ∀ (fuel : Nat) (machine : Machine ν),
    Guarded.run? program fuel machine = some (machine.run program.program fuel)

/-- The checked computation gives a program that runs with its accesses checked, or an error to
report, as the other one does. -/
def Assembly.Compiles (result : Except (Stop CompileError) (IndexedProgram ν))
    (outcome : Except CompileError (Program ν)) : Prop :=
  result.map IndexedProgram.program = outcome.mapError Stop.error ∧
    ∀ program, result = .ok program → program.RunsChecked

theorem Assembly.SameOutcome.compiles {result : Except (Stop CompileError) (IndexedProgram ν)}
    {outcome : Except CompileError (Program ν)} (h : SameOutcome result outcome) :
    Compiles result outcome := by
  refine ⟨h.map_program, ?_⟩
  rintro program rfl
  cases h with
  | ok consistent => exact Guarded.run?_eq consistent

/-- No partial operation is used outside its domain: in operations on a builder, whose bodies are
texts or any streams of items, in building what they end with, in compiling a script with or without
them, and in running a program of any code and memory whose globals were declared one by one. -/
theorem every_access_defined (operations : List (Operation ν)) (events : Array Event) :
    ∃ answers assembly answered builder,
      Assembly.performAll {} operations = (answers, assembly) ∧
      Builder.performAll {} operations events = (answered, builder) ∧
      answers = answered.map (Except.mapError Stop.error) ∧
      (∀ main, Assembly.Compiles (Checked.outcome (Assemble.build main assembly))
        (Checked.outcome (builder.buildOfItems main events))) ∧
      (∀ source, Assembly.Compiles (Checked.outcome (Assemble.compileWith source assembly))
        (Checked.outcome (Script.compileWith builder source events))) ∧
      (∀ natives source, Assembly.Compiles
        (Checked.outcome (Assemble.compile natives source ({} : Assembly ν)))
        (Checked.outcome (Script.compile natives source events))) ∧
      ∀ code (declared : List Variable) (memory : Array (Value ν)) entry,
        IndexedProgram.RunsChecked
          { code, globals := IndexedTable.declareAll {} declared, memory, entry } := by
  obtain ⟨hanswers, hshows, hmade⟩ := Assembly.shows_empty.performAll .empty operations events
  refine ⟨_, _, _, _, rfl, rfl, hanswers, ?_, ?_, ?_, ?_⟩
  · exact fun main => (hshows.build main events).compiles
  · exact fun source => (hshows.compileWith hmade source events).compiles
  · exact fun natives source => (Assembly.compile_sameOutcome natives source events).compiles
  · exact fun code declared memory entry =>
      Guarded.run?_eq (IndexedTable.Consistent.empty.declareAll declared)

end StackScript
