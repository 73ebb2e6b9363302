import StackScript.Host

/-!
# Faults

What can go wrong while a program runs. A runtime error is a fault together with the position of
the instruction that caused it.
-/

namespace StackScript

/-- Why an instruction could not be performed. -/
inductive Fault where
  | unresolvedName (name : String)
  | typeMismatch (expected found : TypeTag)
  | argumentTypeMismatch (function : String) (index : Nat) (expected found : TypeTag)
  | arityMismatch (function : String) (expected found : Nat)
  | notInvocable (found : TypeTag)
  | returnOutsideFunction
  | noActiveFrame
  | localOutOfRange (slot : Nat)
  | divisionByZero
  | stackUnderflow
  | stackOverflow
  | callDepthExceeded
  | native (name : String) (error : NativeError)
deriving DecidableEq

/-- A fault of the instruction at an index. -/
structure RuntimeError where
  index : Nat
  fault : Fault
deriving DecidableEq

/-- The text that reports a runtime error. -/
def RuntimeError.message (error : RuntimeError) : String :=
  let place := s!"at instruction {error.index}"
  match error.fault with
  | .unresolvedName name => s!"unresolved name '{name}' {place}"
  | .typeMismatch expected found =>
      s!"type mismatch {place}: expected {expected.name}, found {found.name}"
  | .argumentTypeMismatch function index expected found =>
      s!"argument {index} of '{function}' must be {expected.name}, found {found.name} {place}"
  | .arityMismatch function expected found =>
      s!"'{function}' expects {expected} argument(s), got {found} {place}"
  | .notInvocable found => s!"cannot invoke a value of type {found.name} {place}"
  | .returnOutsideFunction => s!"return outside function {place}"
  | .noActiveFrame => s!"local access outside function {place}"
  | .localOutOfRange slot => s!"local slot {slot} out of range {place}"
  | .divisionByZero => s!"division by zero {place}"
  | .stackUnderflow => s!"stack underflow {place}"
  | .stackOverflow => s!"stack overflow {place}"
  | .callDepthExceeded => s!"call depth exceeded {place}"
  | .native name error => s!"builtin '{name}' failed {place}: {error.message}"

end StackScript
