import StackScript.Event
import StackScript.Machine.Run

/-!
# Watching a run

A watcher sees every instruction together with the machine before it and what became of it. It
keeps notes of its own and has no part in the run.
-/

namespace StackScript

variable {ν σ : Type} [Host ν]

/-- One instruction of a run, as a watcher sees it. -/
structure Sight (ν : Type) where
  before : Machine ν
  instruction : Instruction
  after : Progress ν

namespace Sight

/-- What an instruction reports to a log. -/
def events (sight : Sight ν) : List Event :=
  let index := sight.before.pc
  .fetched index sight.instruction ::
    match sight.instruction with
    | .invoke arguments =>
        match sight.before.callee? arguments, sight.after with
        | some (.builtin builtin), .stopped (.halted name) _ =>
            [.builtinCalled index builtin.name arguments, .halted index name]
        | some (.builtin builtin), _ => [.builtinCalled index builtin.name arguments]
        | some (.function func), .running machine =>
            [.functionCalled index func.name func.entry machine.frames.length]
        | _, _ => []
    | .ret =>
        match sight.after with
        | .running machine => [.returned index machine.pc]
        | .stopped _ _ => []
    | _ => []

end Sight

namespace Machine

/-- A run with a watcher that takes notes. -/
def watch (program : Program ν) (note : σ → Sight ν → σ) :
    (fuel : Nat) → σ → Machine ν → σ × Progress ν
  | 0, notes, machine => (notes, .running machine)
  | fuel + 1, notes, machine =>
      match program.code[machine.pc]? with
      | none => (notes, .stopped .completed machine)
      | some instruction =>
          let after := machine.advance program instruction
          let notes := note notes ⟨machine, instruction, after⟩
          match after with
          | .running machine => watch program note fuel notes machine
          | .stopped outcome machine => (notes, .stopped outcome machine)

/-- Watching a run does not change it. -/
theorem watch_snd (program : Program ν) (note : σ → Sight ν → σ) (fuel : Nat) (notes : σ)
    (machine : Machine ν) :
    (machine.watch program note fuel notes).2 = machine.run program fuel := by
  induction fuel generalizing notes machine with
  | zero => rfl
  | succ fuel ih =>
      unfold watch run step
      cases program.code[machine.pc]? with
      | none => rfl
      | some instruction =>
          cases h : machine.advance program instruction with
          | running next => simpa [h] using ih _ next
          | stopped outcome next => simp [h]

end Machine

end StackScript
