import StackScript.Builder

/-!
# Scripts

A script is a list of declarations, `var NAME TYPE` and `func NAME(...) [TYPE] {...}`, followed by
top-level code. Every declared name is known in every body, so bodies are set aside while the
declarations are read and compiled after them.
-/

namespace StackScript

variable {ν : Type}

/-- A declaration of a script. The body of a function is not compiled yet. -/
inductive Declaration where
  | variable (name : String) (type : TypeTag)
  | function (signature : Signature) (body : List Item)

namespace Parser

/-- Takes parameters and the parenthesis after them; there is one parameter at least. -/
def parameters : (bound : Nat) → Parser (List Variable)
  | 0 => do
      let (name, type) ← typedName .parameterName
      return [⟨name.text, type⟩]
  | bound + 1 => do
      let (name, type) ← typedName .parameterName
      let token ← next
      if token.isMark ")" then return [⟨name.text, type⟩]
      else if token.isMark "," then return ⟨name.text, type⟩ :: (← parameters bound)
      else unexpected .commaOrParenthesis token

/-- Takes the items up to the brace that closes a body, `depth` blocks inside it. An end token
stands for that brace in the result. -/
def enclosed : (bound depth : Nat) → Parser (List Item)
  | 0, _ => do unexpected (.mark "\x7d") (← next)
  | bound + 1, depth => do
      let token ← next
      if token.kind = .eof then unexpected (.mark "\x7d") token
      else if token.isMark "\x7d" then
        match depth with
        | 0 => return [.ok (.eof token.line)]
        | depth + 1 => return .ok token :: (← enclosed bound depth)
      else if token.isMark "\x7b" then return .ok token :: (← enclosed bound (depth + 1))
      else return .ok token :: (← enclosed bound depth)

/-- Takes the parameters of a function, if there are any, and the parenthesis after them. -/
def parameterList (bound : Nat) : Parser (List Variable) := do
  if (← peek).isMark ")" then
    let _ ← next
    return []
  else parameters bound

/-- Takes the type that a function returns, if one is written. -/
def returnType : Parser (Option TypeTag) := do
  if (← peek).kind = .identifier then return some (← declarableType (← next))
  else return none

/-- Takes what follows the word `func`. -/
def functionDeclaration (bound : Nat) : Parser Declaration := do
  let name ← identifier .functionName
  let _ ← mark "("
  let params ← parameterList bound
  let returns ← returnType
  let _ ← mark "\x7b"
  let body ← enclosed bound 0
  return .function { name := name.text, params, returns } body

/-- Takes a declaration, if one comes next. -/
def declaration? (bound : Nat) : Parser (Option Declaration) := do
  let token ← peek
  if token.isWord "var" then
    let _ ← next
    let (name, type) ← typedName .variableName
    return some (.variable name.text type)
  else if token.isWord "func" then
    let _ ← next
    return some (← functionDeclaration bound)
  else return none

end Parser

/-- Makes the name of a declaration known. -/
def Builder.register (builder : Builder ν) :
    Declaration → Except CompileError (Builder ν)
  | .variable name type => (builder.global name type).map (·.2)
  | .function signature _ => (builder.reserve signature.name).map (·.2)

namespace Script

/-- Takes all declarations and makes each name known when it is read. -/
def declarations (limit : Nat) :
    (bound : Nat) → Builder ν → Parser (List Declaration × Builder ν)
  | 0, builder => return ([], builder)
  | bound + 1, builder => do
      match ← Parser.declaration? limit with
      | none => return ([], builder)
      | some first =>
          let builder ← builder.register first
          let (rest, builder) ← declarations limit bound builder
          return (first :: rest, builder)

/-- Compiles the functions of a list of declarations in order. -/
def compileFunctions : Builder ν → List Declaration → Build (Builder ν)
  | builder, [] => return builder
  | builder, .variable _ _ :: rest => compileFunctions builder rest
  | builder, .function signature body :: rest => do
      let (_, builder) ← builder.functionOfItems signature body
      compileFunctions builder rest

/-- Compiles a script into a program that also has what a builder holds. -/
def compileWith (builder : Builder ν) (source : String) : Build (Program ν) := do
  let tokens ← (Token.tokenize source).mapError CompileError.lex
  let items := tokens.map Except.ok
  let ((declared, builder), state) ←
    Build.parse items none (declarations items.length items.length builder)
  let builder ← compileFunctions builder declared
  builder.buildOfItems state.rest

/-- Compiles a script that may use the given builtins. -/
def compile (natives : List (Builtin ν)) (source : String) : Build (Program ν) := do
  let builder ← Builder.ofBuiltins natives
  compileWith builder source

end Script

end StackScript
