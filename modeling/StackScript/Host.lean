import StackScript.Sink
import StackScript.Value

/-!
# Hosts

A host decides what natives there are and what each of them does. A native sees its arguments,
writes to the sink, and then lets the program go on or halts it.
-/

namespace StackScript

/-- Why a native failed. -/
inductive NativeError where
  | arity (expected found : Nat)
  | argumentType (index : Nat) (expected found : TypeTag)
  | output (error : SinkError)
deriving DecidableEq

/-- The text that reports a failed native. -/
def NativeError.message : NativeError → String
  | .arity expected found => s!"expected {expected} argument(s), got {found}"
  | .argumentType index expected found =>
      s!"argument {index} must be {expected.name}, got {found.name}"
  | .output error => s!"output failed: {error.message}"

/-- How a program goes on after a native. -/
inductive Flow where
  | proceed
  | halt
deriving DecidableEq

/-- A call of a native: it works on the sink and keeps what it wrote when it fails. -/
abbrev NativeCall := EStateM NativeError Sink

/-- The actions of the natives in `ν`. -/
class Host (ν : Type) where
  call : ν → List (Value ν) → NativeCall Flow

end StackScript
