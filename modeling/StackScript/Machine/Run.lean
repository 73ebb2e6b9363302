import StackScript.Machine

/-!
# Runs

A run performs one instruction after the other until the code ends, a builtin halts the program or
an instruction fails. The program counter stays on an instruction that halted or failed, so a
stopped machine can be run again from there.
-/

namespace StackScript

variable {ν : Type} [Host ν]

/-- How a run ended. -/
inductive Outcome where
  | completed
  | halted (name : String)
  | failed (error : RuntimeError)
deriving DecidableEq

/-- What a machine has come to. -/
inductive Progress (ν : Type) where
  | running (machine : Machine ν)
  | stopped (outcome : Outcome) (machine : Machine ν)

/-- The machine in its present state. -/
def Progress.machine : Progress ν → Machine ν
  | .running machine => machine
  | .stopped _ machine => machine

namespace Machine

/-- Performs an instruction and moves the program counter. -/
def advance (program : Program ν) (instruction : Instruction) (machine : Machine ν) :
    Progress ν :=
  match perform program instruction machine with
  | .ok .next machine => .running { machine with pc := machine.pc + 1 }
  | .ok (.jump target) machine => .running { machine with pc := target }
  | .ok (.halt name) machine => .stopped (.halted name) machine
  | .error fault machine => .stopped (.failed ⟨machine.pc, fault⟩) machine

/-- Performs the instruction at the program counter, if the code has one there. -/
def step (program : Program ν) (machine : Machine ν) : Progress ν :=
  match program.code[machine.pc]? with
  | none => .stopped .completed machine
  | some instruction => machine.advance program instruction

/-- Performs at most the given number of instructions. -/
def run (program : Program ν) : (fuel : Nat) → Machine ν → Progress ν
  | 0, machine => .running machine
  | fuel + 1, machine =>
      match machine.step program with
      | .running machine => run program fuel machine
      | .stopped outcome machine => .stopped outcome machine

/-- A run can be interrupted and resumed. -/
theorem run_add (program : Program ν) (first second : Nat) (machine : Machine ν) :
    machine.run program (first + second) =
      match machine.run program first with
      | .running machine => machine.run program second
      | .stopped outcome machine => .stopped outcome machine := by
  induction first generalizing machine with
  | zero => simp [run]
  | succ first ih =>
      rw [Nat.succ_add, run, run]
      cases machine.step program with
      | running next => exact ih next
      | stopped outcome next => rfl

end Machine

end StackScript
