/-!
# Output sinks

Where builtins write to. A sink can have a capacity; a write that does not fit keeps the part that
does and fails.
-/

namespace StackScript

/-- The bytes written so far, and how many there may be at most. -/
structure Sink where
  bytes : ByteArray := .empty
  capacity : Option Nat := none

/-- A write did not fit into the sink. -/
inductive SinkError where
  | full
deriving DecidableEq

/-- The text that reports a failed write. -/
def SinkError.message : SinkError → String
  | .full => "sink full"

namespace Sink

/-- The part of some bytes that still fits. -/
def fitting (sink : Sink) (data : ByteArray) : ByteArray :=
  match sink.capacity with
  | none => data
  | some capacity => data.extract 0 (capacity - sink.bytes.size)

/-- Appends a text in UTF-8, or as much of it as fits. Writing nothing never fails. -/
def write (text : String) : EStateM SinkError Sink Unit := fun sink =>
  let data := text.toUTF8
  let kept := sink.fitting data
  let sink := { sink with bytes := sink.bytes ++ kept }
  if kept.size = data.size then .ok () sink else .error .full sink

/-- Appends a text and a line end. -/
def writeLine (text : String) : EStateM SinkError Sink Unit :=
  write (text ++ "\n")

end Sink

end StackScript
