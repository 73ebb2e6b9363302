import StackScript.CompileError
import StackScript.Event
import StackScript.SlotTable
import StackScript.Token
import StackScript.Tree.Code

/-!
# Reading syntax trees

A predictive parser with one token of lookahead. It resolves names as it goes, against the locals
declared so far, and reports a jump as soon as its target is known; an error keeps what was
reported before it.

Two numbers make every reader total. The *budget* is the number of further levels of nesting that
are allowed; a reader that goes one level down has one less. The *bound* is at least the number of
items left, so a reader that takes at least one item in each round is done when it reaches zero:
nothing but the end of the input is left then.
-/

namespace StackScript

/-- What a parser has read and what is left. -/
structure Parser.State where
  /-- The items not taken yet. -/
  rest : List Item
  /-- The line of the last token taken. -/
  line : Nat := 1
  /-- The locals declared so far, inside a function. -/
  locals : Option SlotTable := none
  /-- What was reported so far. -/
  events : Array Event := #[]

/-- A result that needs no state stands for the computation that leaves the state alone. -/
instance liftExcept {ε σ : Type} : MonadLift (Except ε) (EStateM ε σ) where
  monadLift
    | .ok result => pure result
    | .error error => throw error

/-- A reader that may fail; a failure keeps the state. -/
abbrev Parser := EStateM CompileError Parser.State

namespace Parser

variable {α : Type}

/-- Takes the next token. After the last item there is only the end of the input. -/
def next : Parser Token := fun state =>
  match state.rest with
  | [] => .ok (.eof state.line) state
  | .error error :: _ => .error (.lex error) state
  | .ok token :: rest => .ok token { state with rest, line := token.line }

/-- Looks at the next token without taking it. -/
def peek : Parser Token := fun state =>
  match state.rest with
  | [] => .ok (.eof state.line) state
  | .error error :: _ => .error (.lex error) state
  | .ok token :: _ => .ok token state

/-- Fails because of a token that does not fit. -/
def unexpected (expected : Expected) (found : Token) : Parser α :=
  throw (.unexpectedToken expected found)

/-- Takes a punctuation mark. -/
def mark (symbol : String) : Parser Token := do
  let token ← next
  if token.isMark symbol then return token
  else unexpected (.mark symbol) token

/-- Takes a name. -/
def identifier (expected : Expected) : Parser Token := do
  let token ← next
  if token.kind = .identifier then return token
  else unexpected expected token

/-- The declarable type that a token names. -/
def declarableType (token : Token) : Parser TypeTag :=
  match TypeTag.ofName? token.text with
  | some type =>
      if type.isDeclarable then pure type else throw (.unknownType token.line token.text)
  | none => throw (.unknownType token.line token.text)

/-- Takes a name and its declarable type. -/
def typedName (expected : Expected) : Parser (Token × TypeTag) := do
  let name ← identifier expected
  let type ← declarableType (← identifier .typeName)
  return (name, type)

/-- The place of a name: a local if it is declared as one, else a global. -/
def resolve (name : String) : Parser Place := fun state =>
  match state.locals.bind (·.find? name) with
  | some (slot, found) => .ok (.slot slot found.type) state
  | none => .ok (.global name) state

/-- Reports the target of the jump at an index. -/
def settle (index target : Nat) : Parser Unit := fun state =>
  .ok () { state with events := state.events.push (.jumpSettled index target) }

/-- The number that decimal digits stand for; there has to be one at least. -/
def digits? (text : List Char) : Option Nat :=
  if text ≠ [] ∧ text.all Char.isDigit then
    some (text.foldl (fun n c => 10 * n + (c.toNat - '0'.toNat)) 0)
  else none

/-- The first natural number that is no 64-bit integer, 2^63. -/
def integerLimit : Nat := 9223372036854775808

/-- The integer with an optional sign that a text stands for, if it fits into 64 bits. -/
def integer? : List Char → Option Int64
  | '-' :: text => (digits? text).bind fun n =>
      if n ≤ integerLimit then some (Int64.ofInt (-n)) else none
  | '+' :: text => (digits? text).bind fun n =>
      if n < integerLimit then some (Int64.ofNat n) else none
  | text => (digits? text).bind fun n =>
      if n < integerLimit then some (Int64.ofNat n) else none

/-- The value of a number token: its digits before the first dot. -/
def numberValue? (text : String) : Option Int64 :=
  integer? (text.toList.takeWhile (· ≠ '.'))

/-- The term that a token is. -/
def term (token : Token) : Parser Expr :=
  match token.kind with
  | .number =>
      match numberValue? token.text with
      | some value => pure (.literal (.int value))
      | none => throw (.invalidNumber token.line token.text)
  | .string => pure (.literal (.str token.text))
  | .identifier => Expr.variable <$> resolve token.text
  | _ => unexpected .term token

/-- Takes arguments and the parenthesis after them; there is one argument at least. -/
def arguments (argument : Parser Expr) : (bound : Nat) → Parser (List Expr)
  | 0 => do return [← argument]
  | bound + 1 => do
      let first ← argument
      let token ← next
      if token.isMark ")" then return [first]
      else if token.isMark "," then return first :: (← arguments argument bound)
      else unexpected .commaOrParenthesis token

/-- Takes what follows the opening parenthesis of a call. -/
def callArguments (argument : Parser Expr) (bound : Nat) : Parser (List Expr) := do
  if (← peek).isMark ")" then
    let _ ← next
    return []
  else arguments argument bound

/-- Takes the calls that follow a term. -/
def calls (argument : Parser Expr) (limit : Nat) : (bound : Nat) → Expr → Parser Expr
  | 0, callee => return callee
  | bound + 1, callee => do
      if (← peek).isMark "(" then
        let _ ← next
        let given ← callArguments argument limit
        calls argument limit bound (.call callee given)
      else return callee

/-- Takes the rest of a term that starts with a token, and the calls that follow it. -/
def callable (argument : Parser Expr) (bound : Nat) (token : Token) : Parser Expr := do
  calls argument bound bound (← term token)

/-- Takes an expression. -/
def expression (bound : Nat) : (budget : Nat) → Parser Expr
  | 0 => do throw (.nestingTooDeep (← next).line)
  | budget + 1 => do
      let left ← callable (expression bound budget) bound (← next)
      let token ← peek
      if token.kind = .operator then
        let _ ← next
        match Operator.ofSymbol? token.text with
        | none => throw (.unknownOperator token.line token.text)
        | some operator => return .binary left operator (← expression bound budget)
      else return left

/-- What ends a sequence of statements. -/
inductive Closing where
  | endOfInput
  | brace
deriving DecidableEq

/-- Whether a token ends a sequence of statements. The wrong end is an error. -/
def Closing.closes (closing : Closing) (token : Token) : Parser Bool :=
  match closing with
  | .endOfInput =>
      if token.kind = .eof then pure true
      else if token.isMark "\x7d" then unexpected .statement token
      else pure false
  | .brace =>
      if token.isMark "\x7d" then pure true
      else if token.kind = .eof then unexpected (.mark "\x7d") token
      else pure false

/-- Takes statements, the first of which is placed at `start`, and what closes them. -/
def statements (statement : (start : Nat) → Token → Parser Stmt) (closing : Closing) :
    (bound start : Nat) → Parser Block
  | 0, _ => do
      let token ← next
      if ← closing.closes token then return []
      else unexpected .statement token
  | bound + 1, start => do
      let token ← next
      if ← closing.closes token then return []
      else
        let first ← statement start token
        return first :: (← statements statement closing bound (start + first.size))

/-- Takes what follows the word `local`, which stands on `line`. -/
def localDeclaration (line : Nat) : Parser Stmt := do
  let (name, type) ← typedName .localName
  match (← get).locals with
  | none => throw (.localOutsideFunction line)
  | some table =>
      match table.declare ⟨name.text, type⟩ with
      | .error _ => throw (.duplicateLocal name.line name.text)
      | .ok (_, table) =>
          modify fun state => { state with locals := some table }
          return .declare name.text type

/-- Takes the rest of a statement that starts with a token. -/
def statement (bound budget : Nat) (block : (start : Nat) → Parser Block) (start : Nat)
    (token : Token) : Parser Stmt := do
  if token.isMark ";" then return .skip
  else if token.isWord "return" then return .ret
  else if token.isWord "if" then
    let test ← expression bound budget
    let jump := start + test.size
    let body ← block (jump + 1)
    settle jump (jump + 1 + Block.size body)
    return .branch test body
  else if token.isWord "while" then
    let test ← expression bound budget
    let jump := start + test.size
    let body ← block (jump + 1)
    settle jump (jump + 1 + Block.size body + 2)
    return .loop test body
  else if token.isWord "local" then localDeclaration token.line
  else if token.kind = .identifier then
    if (← peek).kind = .assign then
      let _ ← next
      let value ← expression bound budget
      return .assign (← resolve token.text) value
    else return .evaluate (← callable (expression bound budget) bound token)
  else return .evaluate (← callable (expression bound budget) bound token)

/-- Takes a block in braces. -/
def block (bound : Nat) : (budget start : Nat) → Parser Block
  | 0, _ => do throw (.nestingTooDeep (← mark "\x7b").line)
  | budget + 1, start => do
      let _ ← mark "\x7b"
      statements (statement bound budget (block bound budget)) .brace bound start

/-- Takes statements up to the end of the input. -/
def wholeBlock (bound start : Nat) : Parser Block :=
  statements (statement bound nestingLimit (block bound nestingLimit)) .endOfInput bound start

end Parser

end StackScript
