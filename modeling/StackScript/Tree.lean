import StackScript.Instruction

/-!
# Syntax trees

The tree of a block of statements. Names are already resolved: a variable is either a slot of the
enclosing function or a global. The right operand of an operator is all that follows it, so a chain
of operators leans to the right.
-/

namespace StackScript

/-- Where a variable lives. -/
inductive Place where
  | slot (index : Nat) (type : TypeTag)
  | global (name : String)
deriving DecidableEq

/-- An expression. -/
inductive Expr where
  | literal (value : Literal)
  | variable (place : Place)
  | call (callee : Expr) (arguments : List Expr)
  | binary (left : Expr) (operator : Operator) (right : Expr)

/-- A statement. -/
inductive Stmt where
  /-- A lone semicolon. -/
  | skip
  /-- Leaves the running function. -/
  | ret
  /-- Runs the body once unless the test is zero. -/
  | branch (test : Expr) (body : List Stmt)
  /-- Runs the body until the test is zero. -/
  | loop (test : Expr) (body : List Stmt)
  /-- Gives the enclosing function one more slot; nothing happens when it is run. -/
  | declare (name : String) (type : TypeTag)
  | assign (target : Place) (value : Expr)
  /-- A call for its effect, or a term whose value is dropped. -/
  | evaluate (term : Expr)

/-- A sequence of statements. -/
abbrev Block := List Stmt

end StackScript
