import StackScript.Host

/-!
# Standard natives

The natives that scripts run with on the command line: three that print and one that ends the
program.
-/

namespace StackScript

/-- A standard native. -/
inductive Native where
  | printOne
  | printAll
  | printSum
  | done
deriving DecidableEq

namespace Native

variable {ν : Type}

/-- The name a standard native goes by. -/
def name : Native → String
  | .printOne => "print_one"
  | .printAll => "print_all"
  | .printSum => "print_sum"
  | .done => "done"

/-- Prints a text on a line of its own. -/
def printLine (text : String) : NativeCall Unit :=
  (Sink.writeLine text).adaptExcept NativeError.output

/-- Prints values, each on a line of its own. -/
def printValues : List (Value ν) → NativeCall Unit
  | [] => pure ()
  | first :: rest => do
      printLine first.render
      printValues rest

/-- The sum of integers, modulo 2^64, from the argument at `index` on. -/
def sum (index : Nat) (total : Int64) : List (Value ν) → Except NativeError Int64
  | [] => .ok total
  | .int value :: rest => sum (index + 1) (total + value) rest
  | other :: _ => .error (.argumentType index .int other.tag)

/-- Performs a standard native. -/
def perform (native : Native) (arguments : List (Value ν)) : NativeCall Flow :=
  match native with
  | .printOne => do
      match arguments with
      | [value] => printLine value.render
      | _ => throw (.arity 1 arguments.length)
      return .proceed
  | .printAll => do
      printValues arguments
      return .proceed
  | .printSum => do
      match sum 0 0 arguments with
      | .error error => throw error
      | .ok total => printLine (toString total.toInt)
      return .proceed
  | .done => do
      printLine "done the program"
      return .halt

instance : Host Native := ⟨perform⟩

/-- A standard native under its own name. -/
def builtin (native : Native) : Builtin Native :=
  ⟨native.name, native⟩

/-- The standard builtins in the order they are declared in. -/
def builtins : List (Builtin Native) :=
  [Native.printOne, .printAll, .printSum, .done].map builtin

end Native

end StackScript
