import StackScript.Tree

/-!
# Code of syntax trees

Expressions have one code wherever they stand. The code of a statement depends on the position it
is placed at, because jumps are absolute; its length does not.
-/

namespace StackScript

namespace Place

/-- Pushes the variable's value. -/
def load : Place → Instruction
  | .slot index type => .loadLocal index type
  | .global name => .loadGlobal name

/-- Pops a value into the variable. -/
def store : Place → Instruction
  | .slot index type => .setLocal index type
  | .global name => .assignGlobal name

end Place

namespace Expr

/-- Whether the expression is a call. -/
def isCall : Expr → Bool
  | .call _ _ => true
  | _ => false

mutual

/-- The code that leaves an expression's value on the stack. -/
def code : Expr → List Instruction
  | .literal value => [.push value]
  | .variable place => [place.load]
  | .call callee arguments =>
      callee.code ++ (codeAll arguments ++ [.invoke arguments.length])
  | .binary left operator right => left.code ++ (right.code ++ [.binary operator])

/-- The code of expressions one after the other. -/
def codeAll : List Expr → List Instruction
  | [] => []
  | first :: rest => first.code ++ codeAll rest

end

mutual

/-- The length of an expression's code. -/
def size : Expr → Nat
  | .literal _ | .variable _ => 1
  | .call callee arguments => callee.size + (sizeAll arguments + 1)
  | .binary left _ right => left.size + (right.size + 1)

/-- The length of the code of expressions one after the other. -/
def sizeAll : List Expr → Nat
  | [] => 0
  | first :: rest => first.size + sizeAll rest

end

mutual

/-- `size` is the length of the code. -/
theorem length_code : ∀ expression : Expr, expression.code.length = expression.size
  | .literal _ | .variable _ => rfl
  | .call callee arguments => by
      simp [code, size, length_code callee, length_codeAll arguments]
  | .binary left _ right => by simp [code, size, length_code left, length_code right]

/-- `sizeAll` is the length of the code one after the other. -/
theorem length_codeAll : ∀ list : List Expr, (codeAll list).length = sizeAll list
  | [] => rfl
  | first :: rest => by simp [codeAll, sizeAll, length_code first, length_codeAll rest]

end

end Expr

mutual

/-- The length of a statement's code. -/
def Stmt.size : Stmt → Nat
  | .skip | .declare _ _ => 0
  | .ret => 1
  | .branch test body => test.size + 1 + Block.size body
  | .loop test body => test.size + 1 + Block.size body + 2
  | .assign _ value => value.size + 1
  | .evaluate term => term.size + if term.isCall then 0 else 1

/-- The length of a block's code. -/
def Block.size : Block → Nat
  | [] => 0
  | first :: rest => first.size + Block.size rest

end

mutual

/-- The code of a statement that is placed at `start`. A loop ends with a jump back that is always
taken. -/
def Stmt.code (start : Nat) : Stmt → List Instruction
  | .skip | .declare _ _ => []
  | .ret => [.ret]
  | .branch test body =>
      let inside := start + test.size + 1
      test.code ++ (.jumpIfZero (inside + Block.size body) :: Block.code inside body)
  | .loop test body =>
      let inside := start + test.size + 1
      test.code ++ (.jumpIfZero (inside + Block.size body + 2) ::
        (Block.code inside body ++ [.push (.int 0), .jumpIfZero start]))
  | .assign target value => value.code ++ [target.store]
  | .evaluate term => term.code ++ if term.isCall then [] else [.pop]

/-- The code of a block that is placed at `start`. -/
def Block.code (start : Nat) : Block → List Instruction
  | [] => []
  | first :: rest => first.code start ++ Block.code (start + first.size) rest

end

mutual

/-- A statement's code has the same length wherever it is placed. -/
theorem Stmt.length_code : ∀ (statement : Stmt) (start : Nat),
    (statement.code start).length = statement.size
  | .skip, _ | .declare _ _, _ | .ret, _ => rfl
  | .branch test body, start => by
      simp [Stmt.code, Stmt.size, Expr.length_code, Block.length_code body]
      omega
  | .loop test body, start => by
      simp [Stmt.code, Stmt.size, Expr.length_code, Block.length_code body]
      omega
  | .assign _ value, _ => by simp [Stmt.code, Stmt.size, Expr.length_code]
  | .evaluate term, _ => by
      cases h : term.isCall <;> simp [Stmt.code, Stmt.size, Expr.length_code, h]

/-- A block's code has the same length wherever it is placed. -/
theorem Block.length_code : ∀ (block : Block) (start : Nat),
    (Block.code start block).length = Block.size block
  | [], _ => rfl
  | first :: rest, start => by
      simp [Block.code, Block.size, Stmt.length_code first, Block.length_code rest]

end

end StackScript
