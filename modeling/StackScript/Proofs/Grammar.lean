import StackScript.Tree.Parser

/-!
# The grammar of blocks

A derivation is a tree that follows the grammar rule by rule, with the names as they are written.
It spells a word of terminal symbols, and it has a syntax tree once the locals are known.

    block = stmt*
    stmt  = ; | return | if expr block in braces | while expr block in braces
          | local NAME TYPE | NAME = expr | term call*
    expr  = term call* [operator expr]
    call  = ( [expr {, expr}] )
    term  = number | string | identifier

The grammar is unambiguous: a word has at most one derivation.
-/

namespace StackScript

/-- The symbol that an operator is written with. -/
def Operator.symbol : Operator → String
  | .add => "+"
  | .sub => "-"
  | .mul => "*"
  | .div => "/"
  | .eq => "=="
  | .gt => ">"
  | .lt => "<"

theorem Operator.ofSymbol?_symbol (operator : Operator) :
    ofSymbol? operator.symbol = some operator := by
  cases operator <;> decide

theorem Operator.eq_symbol_of_ofSymbol? {symbol : String} {operator : Operator}
    (h : ofSymbol? symbol = some operator) : symbol = operator.symbol := by
  unfold ofSymbol? at h
  repeat' split at h
  all_goals cases h
  all_goals assumption

theorem Operator.symbol_injective {left right : Operator} (h : left.symbol = right.symbol) :
    left = right := by
  have hleft := ofSymbol?_symbol left
  rw [h, ofSymbol?_symbol] at hleft
  exact (Option.some.inj hleft).symm

namespace Grammar

/-- The terminal symbols: tokens without their lines. -/
inductive Terminal where
  | endOfInput
  | identifier (text : String)
  | number (text : String)
  | string (text : String)
  | operator (text : String)
  | assign
  | mark (text : String)
deriving DecidableEq

/-- The words that open a statement of their own. -/
def keywords : List String :=
  ["return", "if", "while", "local"]

/-- A number, a string or a name. A number has an integer part that fits into 64 bits. -/
inductive Term where
  | number (text : String) (value : Int64) (fits : Parser.numberValue? text = some value)
  | string (text : String)
  | identifier (name : String)

/-- A derivation of an expression. A call is the list of its arguments. -/
inductive Expression where
  | plain (term : Term) (calls : List (List Expression))
  | operation (term : Term) (calls : List (List Expression)) (operator : Operator)
      (right : Expression)

/-- A derivation of a statement. A term that opens a statement is no keyword. -/
inductive Statement where
  | empty
  | ret
  | branch (test : Expression) (body : List Statement)
  | loop (test : Expression) (body : List Statement)
  | declare (name : String) (type : TypeTag) (declarable : type.isDeclarable = true)
  | assign (name : String) (free : name ∉ keywords) (value : Expression)
  | evaluate (term : Term) (free : ∀ word ∈ keywords, term ≠ .identifier word)
      (calls : List (List Expression))

/-! ## Words -/

/-- The terminal that a term is. -/
def Term.terminal : Term → Terminal
  | .number text _ _ => .number text
  | .string text => .string text
  | .identifier name => .identifier name

mutual

/-- The word that an expression spells. -/
def Expression.word : Expression → List Terminal
  | .plain term calls => term.terminal :: callWord calls
  | .operation term calls operator right =>
      term.terminal :: (callWord calls ++ .operator operator.symbol :: right.word)

/-- The word that calls one after the other spell. -/
def callWord : List (List Expression) → List Terminal
  | [] => []
  | arguments :: rest => .mark "(" :: (argumentWord arguments ++ .mark ")" :: callWord rest)

/-- The word that arguments with commas between them spell. -/
def argumentWord : List Expression → List Terminal
  | [] => []
  | [last] => last.word
  | first :: next :: rest => first.word ++ .mark "," :: argumentWord (next :: rest)

end

mutual

/-- The word that a statement spells. -/
def Statement.word : Statement → List Terminal
  | .empty => [.mark ";"]
  | .ret => [.identifier "return"]
  | .branch test body =>
      .identifier "if" :: (test.word ++ .mark "\x7b" :: (blockWord body ++ [.mark "\x7d"]))
  | .loop test body =>
      .identifier "while" :: (test.word ++ .mark "\x7b" :: (blockWord body ++ [.mark "\x7d"]))
  | .declare name type _ => [.identifier "local", .identifier name, .identifier type.name]
  | .assign name _ value => .identifier name :: .assign :: value.word
  | .evaluate term _ calls => term.terminal :: callWord calls

/-- The word that statements one after the other spell. -/
def blockWord : List Statement → List Terminal
  | [] => []
  | first :: rest => first.word ++ blockWord rest

end

/-! ## Nesting -/

mutual

/-- How deeply expressions stand in one another, the expression itself included. -/
def Expression.depth : Expression → Nat
  | .plain _ calls => callDepth calls + 1
  | .operation _ calls _ right => max (callDepth calls) right.depth + 1

/-- How deeply expressions stand in one another in the arguments of calls. -/
def callDepth : List (List Expression) → Nat
  | [] => 0
  | arguments :: rest => max (argumentDepth arguments) (callDepth rest)

/-- How deeply expressions stand in one another in arguments. -/
def argumentDepth : List Expression → Nat
  | [] => 0
  | first :: rest => max first.depth (argumentDepth rest)

end

mutual

/-- How deeply expressions and blocks in braces stand in one another in a statement. -/
def Statement.depth : Statement → Nat
  | .empty | .ret | .declare _ _ _ => 0
  | .branch test body | .loop test body => max test.depth (blockDepth body + 1)
  | .assign _ _ value => value.depth
  | .evaluate _ _ calls => callDepth calls

/-- How deeply expressions and blocks in braces stand in one another in statements. -/
def blockDepth : List Statement → Nat
  | [] => 0
  | first :: rest => max first.depth (blockDepth rest)

end

/-! ## Locals -/

/-- The locals after one more of them is declared. -/
def declareIn (locals : Option SlotTable) (name : String) (type : TypeTag) : Option SlotTable :=
  locals.map fun table => ⟨table.entries ++ [⟨name, type⟩]⟩

mutual

/-- The locals after a statement. -/
def Statement.localsAfter (locals : Option SlotTable) : Statement → Option SlotTable
  | .branch _ body | .loop _ body => blockLocalsAfter locals body
  | .declare name type _ => declareIn locals name type
  | .empty | .ret | .assign _ _ _ | .evaluate _ _ _ => locals

/-- The locals after statements. -/
def blockLocalsAfter (locals : Option SlotTable) : List Statement → Option SlotTable
  | [] => locals
  | first :: rest => blockLocalsAfter (first.localsAfter locals) rest

end

mutual

/-- Every local is declared where there is a table of locals, under a name that is not in it. -/
def Statement.Declares (locals : Option SlotTable) : Statement → Prop
  | .branch _ body | .loop _ body => BlockDeclares locals body
  | .declare name _ _ => ∃ table, locals = some table ∧ table.slot? name = none
  | .empty | .ret | .assign _ _ _ | .evaluate _ _ _ => True

/-- Every local of statements is declared where there is a table, under a new name. -/
def BlockDeclares (locals : Option SlotTable) : List Statement → Prop
  | [] => True
  | first :: rest => first.Declares locals ∧ BlockDeclares (first.localsAfter locals) rest

end

/-! ## Syntax trees -/

/-- Where a name leads: to a local that is declared under it, else to a global. -/
def place (locals : Option SlotTable) (name : String) : Place :=
  match locals.bind (·.find? name) with
  | some (slot, found) => .slot slot found.type
  | none => .global name

/-- The tree of a term. -/
def Term.tree (locals : Option SlotTable) : Term → Expr
  | .number _ value _ => .literal (.int value)
  | .string text => .literal (.str text)
  | .identifier name => .variable (place locals name)

mutual

/-- The tree of an expression. -/
def Expression.tree (locals : Option SlotTable) : Expression → Expr
  | .plain term calls => callTree locals (term.tree locals) calls
  | .operation term calls operator right =>
      .binary (callTree locals (term.tree locals) calls) operator (right.tree locals)

/-- The tree of calls that follow a callee. -/
def callTree (locals : Option SlotTable) (callee : Expr) : List (List Expression) → Expr
  | [] => callee
  | arguments :: rest => callTree locals (.call callee (argumentTrees locals arguments)) rest

/-- The trees of arguments. -/
def argumentTrees (locals : Option SlotTable) : List Expression → List Expr
  | [] => []
  | first :: rest => first.tree locals :: argumentTrees locals rest

end

mutual

/-- The tree of a statement. -/
def Statement.tree (locals : Option SlotTable) : Statement → Stmt
  | .empty => .skip
  | .ret => .ret
  | .branch test body => .branch (test.tree locals) (blockTree locals body)
  | .loop test body => .loop (test.tree locals) (blockTree locals body)
  | .declare name type _ => .declare name type
  | .assign name _ value => .assign (place locals name) (value.tree locals)
  | .evaluate term _ calls => .evaluate (callTree locals (term.tree locals) calls)

/-- The tree of statements, each with the locals that are declared before it. -/
def blockTree (locals : Option SlotTable) : List Statement → Block
  | [] => []
  | first :: rest => first.tree locals :: blockTree (first.localsAfter locals) rest

end

end Grammar

/-- The terminal symbol that a token is. -/
def Token.terminal (token : Token) : Grammar.Terminal :=
  match token.kind with
  | .eof => .endOfInput
  | .identifier => .identifier token.text
  | .number => .number token.text
  | .string => .string token.text
  | .operator => .operator token.text
  | .assign => .assign
  | .punctuation => .mark token.text

namespace Token

theorem isMark_iff {token : Token} {symbol : String} :
    token.isMark symbol = true ↔ token.terminal = .mark symbol := by
  unfold isMark terminal
  cases token.kind <;> simp

theorem isWord_iff {token : Token} {word : String} :
    token.isWord word = true ↔ token.terminal = .identifier word := by
  unfold isWord terminal
  cases token.kind <;> simp

theorem kind_eq_eof_iff {token : Token} :
    token.kind = .eof ↔ token.terminal = .endOfInput := by
  unfold terminal
  cases token.kind <;> simp

theorem kind_eq_identifier_iff {token : Token} :
    token.kind = .identifier ↔ ∃ text, token.terminal = .identifier text := by
  unfold terminal
  cases token.kind <;> simp

theorem kind_eq_operator_iff {token : Token} :
    token.kind = .operator ↔ ∃ text, token.terminal = .operator text := by
  unfold terminal
  cases token.kind <;> simp

theorem kind_eq_assign_iff {token : Token} :
    token.kind = .assign ↔ token.terminal = .assign := by
  unfold terminal
  cases token.kind <;> simp

theorem text_of_terminal_identifier {token : Token} {text : String}
    (h : token.terminal = .identifier text) : token.text = text := by
  unfold terminal at h
  split at h <;> simp_all

theorem text_of_terminal_operator {token : Token} {text : String}
    (h : token.terminal = .operator text) : token.text = text := by
  unfold terminal at h
  split at h <;> simp_all

end Token

end StackScript
