import StackScript.Token

/-!
# Compile errors

Everything that can be wrong with a script before it runs.
-/

namespace StackScript

/-- What the grammar asks for at a place. -/
inductive Expected where
  | statement
  | term
  | localName
  | typeName
  | variableName
  | functionName
  | parameterName
  | mark (symbol : String)
  | commaOrParenthesis
deriving DecidableEq

/-- The phrase for what was asked for. -/
def Expected.phrase : Expected → String
  | .statement => "statement"
  | .term => "term"
  | .localName => "local name"
  | .typeName => "type name"
  | .variableName => "variable name"
  | .functionName => "function name"
  | .parameterName => "parameter name"
  | .mark symbol => "'" ++ symbol ++ "'"
  | .commaOrParenthesis => "',' or ')'"

/-- How deeply expressions and blocks may stand in one another. -/
def nestingLimit : Nat := 256

/-- Why a script does not compile. -/
inductive CompileError where
  | lex (error : LexError)
  | unexpectedToken (expected : Expected) (found : Token)
  | unknownOperator (line : Nat) (symbol : String)
  | invalidNumber (line : Nat) (text : String)
  | unknownType (line : Nat) (name : String)
  | localOutsideFunction (line : Nat)
  | duplicateLocal (line : Nat) (name : String)
  | duplicateParameter (function name : String)
  | duplicateGlobal (name : String)
  | nestingTooDeep (line : Nat)
deriving DecidableEq

/-- The text that reports a compile error. -/
def CompileError.message : CompileError → String
  | .lex error => error.message
  | .unexpectedToken expected found =>
      s!"line {found.line}: expected {expected.phrase}, found {found.describe}"
  | .unknownOperator line symbol => s!"line {line}: unknown operator '{symbol}'"
  | .invalidNumber line text => s!"line {line}: invalid number '{text}'"
  | .unknownType line name => s!"line {line}: unknown type '{name}'"
  | .localOutsideFunction line =>
      s!"line {line}: 'local' is only allowed inside a function body"
  | .duplicateLocal line name => s!"line {line}: local '{name}' is already declared"
  | .duplicateParameter function name =>
      s!"function '{function}': parameter '{name}' is already declared"
  | .duplicateGlobal name => s!"global '{name}' is already declared"
  | .nestingTooDeep line => s!"line {line}: nesting exceeds {nestingLimit} levels"

end StackScript
