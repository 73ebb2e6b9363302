import StackScript.Instruction
import StackScript.Text.Column

/-!
# Events

What compiling and running report to a log. An event has a level, the name of the part of the
toolchain it comes from, and a message.
-/

namespace StackScript

/-- How much detail a log record gives. -/
inductive Level where
  | debug
  | trace
deriving DecidableEq

/-- The word for a level in a log. -/
def Level.name : Level → String
  | .debug => "debug"
  | .trace => "trace"

/-- Something worth a log record. -/
inductive Event where
  /-- The jump at `index`, whose target was open, leads to `target`. -/
  | jumpSettled (index target : Nat)
  | functionCompiled (name : String) (first last : Nat) (locals : Nat)
  | mainCompiled (first last : Nat)
  /-- The machine is about to perform an instruction. -/
  | fetched (index : Nat) (instruction : Instruction)
  | builtinCalled (index : Nat) (name : String) (arguments : Nat)
  | functionCalled (index : Nat) (name : String) (entry depth : Nat)
  | returned (index target : Nat)
  | halted (index : Nat) (name : String)
deriving DecidableEq

namespace Event

open Text (position)

/-- The level of an event's log record. -/
def level : Event → Level
  | .jumpSettled _ _ | .fetched _ _ => .trace
  | _ => .debug

/-- The part of the toolchain that an event comes from. -/
def source : Event → String
  | .jumpSettled _ _ => "noast_compiler::parser"
  | .functionCompiled _ _ _ _ | .mainCompiled _ _ => "noast_compiler::builder"
  | _ => "noast_vm::execute"

/-- The message of an event's log record. -/
def message : Event → String
  | .jumpSettled index target => s!"patched jump at {position index} -> {position target}"
  | .functionCompiled name first last locals =>
      s!"compiled function '{name}' at {position first}..{position last} ({locals} locals)"
  | .mainCompiled first last =>
      s!"compiled top-level code at {position first}..{position last}"
  | .fetched index instruction => s!"{position index} {instruction.render}"
  | .builtinCalled index name arguments =>
      s!"{position index} builtin '{name}' with {arguments} arg(s)"
  | .functionCalled index name entry depth =>
      s!"{position index} call '{name}' -> {position entry} (depth {depth})"
  | .returned index target => s!"{position index} return -> {position target}"
  | .halted index name => s!"halted by '{name}' at {position index}"

end Event

end StackScript
