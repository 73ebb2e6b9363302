import Mathlib.Data.List.Forall2
import StackScript.Proofs.Emission
import StackScript.Proofs.Layout
import StackScript.Proofs.Tracking

/-!
# Code at two places

A parser is told where the code of a block will stand, and uses that only for the jumps it reports.
So wherever a block is placed it is read as the same tree, with the same locals, or fails with the
same error. The code of one tree at two places differs by the distance of the places in the targets
of jumps, and in nothing else. What is written in place behind two pieces of code then differs in
the same way, and both pieces are kept.
-/

namespace StackScript

/-! ## Parsers told different places -/

/-- Two parsers have read the same so far. What they reported may differ. -/
structure Parser.State.SameReading (left right : Parser.State) : Prop where
  rest : left.rest = right.rest
  line : left.line = right.line
  locals : left.locals = right.locals

namespace Parser

variable {α : Type}

/-- From states in which the same was read, two parsers read the same. -/
abbrev ReadsSame (left right : Parser α) : Prop :=
  Tracks State.SameReading left right

theorem next_same : ReadsSame next next := by
  intro state state' h
  unfold next
  rw [h.rest, h.line]
  cases state'.rest with
  | nil => exact .ok h
  | cons item rest =>
      cases item with
      | error error => exact .error h
      | ok token => exact .ok ⟨rfl, rfl, h.locals⟩

theorem peek_same : ReadsSame peek peek := by
  intro state state' h
  unfold peek
  rw [h.rest, h.line]
  cases state'.rest with
  | nil => exact .ok h
  | cons item rest =>
      cases item with
      | error error => exact .error h
      | ok token => exact .ok h

theorem mark_same (symbol : String) : ReadsSame (mark symbol) (mark symbol) := by
  apply next_same.bind
  intro token
  exact .ite .pure .throw

theorem identifier_same (expected : Expected) :
    ReadsSame (identifier expected) (identifier expected) := by
  apply next_same.bind
  intro token
  exact .ite .pure .throw

theorem declarableType_same (token : Token) :
    ReadsSame (declarableType token) (declarableType token) := by
  unfold declarableType
  cases TypeTag.ofName? token.text with
  | none => exact .throw
  | some type => exact .ite .pure .throw

theorem typedName_same (expected : Expected) :
    ReadsSame (typedName expected) (typedName expected) := by
  apply (identifier_same expected).bind
  intro name
  apply (identifier_same .typeName).bind
  intro word
  apply (declarableType_same word).bind
  intro type
  exact .pure

theorem resolve_same (name : String) : ReadsSame (resolve name) (resolve name) := by
  intro state state' h
  unfold resolve
  rw [h.locals]
  split <;> exact .ok h

/-- Reports need not be the same on both sides. -/
theorem settle_same (index target index' target' : Nat) :
    ReadsSame (settle index target) (settle index' target') := by
  intro state state' h
  exact .ok ⟨h.rest, h.line, h.locals⟩

/-! ### Expressions -/

theorem term_same (token : Token) : ReadsSame (term token) (term token) := by
  unfold term
  split
  · split
    · exact .pure
    · exact .throw
  · exact .pure
  · exact (resolve_same token.text).bind fun _ => .pure
  · exact .throw

section Calls

variable {argument : Parser Expr} (h : ReadsSame argument argument)
include h

theorem arguments_same (bound : Nat) :
    ReadsSame (arguments argument bound) (arguments argument bound) := by
  induction bound with
  | zero => exact h.bind fun _ => .pure
  | succ bound ih =>
      apply h.bind
      intro first
      apply next_same.bind
      intro token
      exact .ite .pure (.ite (ih.bind fun _ => .pure) .throw)

theorem callArguments_same (bound : Nat) :
    ReadsSame (callArguments argument bound) (callArguments argument bound) := by
  apply peek_same.bind
  intro token
  exact .ite (next_same.bind fun _ => .pure) (arguments_same h bound)

theorem calls_same (limit bound : Nat) (callee : Expr) :
    ReadsSame (calls argument limit bound callee) (calls argument limit bound callee) := by
  induction bound generalizing callee with
  | zero => exact .pure
  | succ bound ih =>
      apply peek_same.bind
      intro token
      refine .ite (next_same.bind fun _ => ?_) .pure
      exact (callArguments_same h limit).bind fun given => ih (.call callee given)

theorem callable_same (bound : Nat) (token : Token) :
    ReadsSame (callable argument bound token) (callable argument bound token) :=
  (term_same token).bind fun callee => calls_same h bound bound callee

end Calls

theorem expression_same (bound budget : Nat) :
    ReadsSame (expression bound budget) (expression bound budget) := by
  induction budget with
  | zero => exact next_same.bind fun _ => .throw
  | succ budget ih =>
      apply next_same.bind
      intro first
      apply (callable_same ih bound first).bind
      intro left
      apply peek_same.bind
      intro token
      refine .ite (next_same.bind fun _ => ?_) .pure
      cases Operator.ofSymbol? token.text with
      | none => exact .throw
      | some operator => exact ih.bind fun _ => .pure

/-! ### Statements -/

theorem closes_same (closing : Closing) (token : Token) :
    ReadsSame (closing.closes token) (closing.closes token) := by
  cases closing with
  | endOfInput => exact .ite .pure (.ite .throw .pure)
  | brace => exact .ite .pure (.ite .throw .pure)

/-- If one statement is read in the same way wherever it is placed, so are many. -/
theorem statements_same {statement : Nat → Token → Parser Stmt}
    (h : ∀ start start' token, ReadsSame (statement start token) (statement start' token))
    (closing : Closing) (bound start start' : Nat) :
    ReadsSame (statements statement closing bound start)
      (statements statement closing bound start') := by
  induction bound generalizing start start' with
  | zero =>
      apply next_same.bind
      intro token
      apply (closes_same closing token).bind
      intro closed
      exact .ite .pure .throw
  | succ bound ih =>
      apply next_same.bind
      intro token
      apply (closes_same closing token).bind
      intro closed
      refine .ite .pure ((h start start' token).bind fun first => ?_)
      exact (ih (start + first.size) (start' + first.size)).bind fun _ => .pure

theorem localDeclaration_same (line : Nat) :
    ReadsSame (localDeclaration line) (localDeclaration line) := by
  apply (typedName_same .localName).bind
  rintro ⟨name, type⟩ state state' h
  dsimp only
  rw [get_bind, get_bind, h.locals]
  cases state'.locals with
  | none => exact .error h
  | some table =>
      dsimp only
      cases table.declare ⟨name.text, type⟩ with
      | error duplicate => exact .error h
      | ok declared => exact .ok ⟨h.rest, h.line, rfl⟩

/-- A test, a body and the jump over it. The places may depend on the test and the body. -/
theorem guarded_same {test : Parser Expr} {block : Nat → Parser Block}
    (htest : ReadsSame test test) (hblock : ∀ start start', ReadsSame (block start) (block start'))
    (place place' : Expr → Nat) (target target' : Expr → Block → Nat)
    (make : Expr → Block → Stmt) :
    ReadsSame
      (do
        let test ← test
        let body ← block (place test + 1)
        settle (place test) (target test body)
        return make test body)
      (do
        let test ← test
        let body ← block (place' test + 1)
        settle (place' test) (target' test body)
        return make test body) :=
  htest.bind fun _ => (hblock _ _).bind fun _ => (settle_same _ _ _ _).bind fun _ => .pure

theorem statement_same (bound budget : Nat) {block : Nat → Parser Block}
    (h : ∀ start start', ReadsSame (block start) (block start')) (start start' : Nat)
    (token : Token) :
    ReadsSame (statement bound budget block start token)
      (statement bound budget block start' token) := by
  have hexpression := expression_same bound budget
  have hevaluate : ReadsSame
      (Stmt.evaluate <$> callable (expression bound budget) bound token)
      (Stmt.evaluate <$> callable (expression bound budget) bound token) :=
    (callable_same hexpression bound token).bind fun _ => .pure
  refine .ite .pure (.ite .pure (.ite ?_ (.ite ?_ (.ite ?_ (.ite ?_ hevaluate)))))
  · exact guarded_same hexpression h _ _ _ _ _
  · exact guarded_same hexpression h _ _ _ _ _
  · exact localDeclaration_same _
  · apply peek_same.bind
    intro sign
    refine .ite (next_same.bind fun _ => ?_) hevaluate
    apply hexpression.bind
    intro value
    exact (resolve_same token.text).bind fun _ => .pure

theorem block_same (bound budget start start' : Nat) :
    ReadsSame (block bound budget start) (block bound budget start') := by
  induction budget generalizing start start' with
  | zero => exact (mark_same _).bind fun _ => .throw
  | succ budget ih =>
      apply (mark_same _).bind
      intro brace
      exact statements_same (statement_same bound budget ih) .brace bound start start'

theorem wholeBlock_same (bound start start' : Nat) :
    ReadsSame (wholeBlock bound start) (wholeBlock bound start') :=
  statements_same (statement_same bound nestingLimit (block_same bound nestingLimit))
    .endOfInput bound start start'

end Parser

/-! ## The code of one tree at two places -/

/-- The same instruction at a place that is `offset` further on: the target of a jump moves along,
and everything else is as it was. -/
inductive Instruction.Moved (offset : Int) : Instruction → Instruction → Prop
  | jump {target target' : Nat} (h : (target' : Int) = target + offset) :
      Moved offset (.jumpIfZero target) (.jumpIfZero target')
  | other {instruction : Instruction} (h : instruction.jumpTarget? = none) :
      Moved offset instruction instruction

/-- The same code at a place that is `offset` further on. -/
abbrev Code.Moved (offset : Int) (code code' : List Instruction) : Prop :=
  List.Forall₂ (Instruction.Moved offset) code code'

theorem Code.Moved.append {offset : Int} {code code' next next' : List Instruction}
    (h : Code.Moved offset code code') (hnext : Code.Moved offset next next') :
    Code.Moved offset (code ++ next) (code' ++ next') :=
  List.rel_append h hnext

/-- The code of an expression has no jumps, so it is the same everywhere. -/
theorem Expr.moved_code (offset : Int) (expression : Expr) :
    Code.Moved offset expression.code expression.code := by
  apply List.forall₂_same.2
  intro instruction hmem
  apply Instruction.Moved.other
  cases instruction with
  | jumpIfZero target => exact absurd hmem (jumpIfZero_notMem_code target expression)
  | _ => rfl

mutual

theorem Stmt.moved_code {offset : Int} : ∀ (statement : Stmt) {start start' : Nat},
    (start' : Int) = start + offset →
    Code.Moved offset (statement.code start) (statement.code start')
  | .skip, _, _, _ | .declare _ _, _, _, _ => .nil
  | .ret, _, _, _ => .cons (.other rfl) .nil
  | .branch test body, _, _, h => by
      apply (test.moved_code offset).append
      apply List.Forall₂.cons
      · exact .jump (by omega)
      · exact Block.moved_code body (by omega)
  | .loop test body, _, _, h => by
      apply (test.moved_code offset).append
      apply List.Forall₂.cons
      · exact .jump (by omega)
      · apply (Block.moved_code body (by omega)).append
        exact .cons (.other rfl) (.cons (.jump h) .nil)
  | .assign target value, _, _, _ => by
      apply (value.moved_code offset).append
      exact .cons (.other (by cases target <;> rfl)) .nil
  | .evaluate term, _, _, _ => by
      apply (term.moved_code offset).append
      split
      · exact .nil
      · exact .cons (.other rfl) .nil

theorem Block.moved_code {offset : Int} : ∀ (block : Block) {start start' : Nat},
    (start' : Int) = start + offset →
    Code.Moved offset (Block.code start block) (Block.code start' block)
  | [], _, _, _ => .nil
  | first :: rest, _, _, h =>
      (Stmt.moved_code first h).append (Block.moved_code rest (by omega))

end

/-! ## Code behind two pieces of code -/

section Behind

variable (items : List Item) (code : Array Instruction)

/-- Writes a stream of items as a block behind the code there is. -/
def Emit.behind (locals : Option IndexedTable) :
    EStateM.Result (Stop CompileError) Emitter Unit :=
  Emit.wholeBlock (items.length + 1) { stream := items, code, locals }

/-- Reads a stream of items as a block whose code stands behind the code there is. -/
def Parser.behind (locals : Option SlotTable) (events : Array Event) :
    EStateM.Result CompileError Parser.State Block :=
  Parser.wholeBlock items.length code.size { rest := items, locals, events }

variable {items code} {locals : Option SlotTable} {events : Array Event}

/-- What is read at one place is read at every other. -/
theorem Parser.behind_same (items : List Item) (code code' : Array Instruction)
    (locals : Option SlotTable) (events events' : Array Event) :
    SameEnd State.SameReading (behind items code locals events)
      (behind items code' locals events') :=
  wholeBlock_same items.length code.size code'.size _ _ ⟨rfl, rfl, rfl⟩

theorem Build.append_of_ok {tree : Block} {state : Parser.State}
    (h : Parser.behind items code locals events = .ok tree state) :
    append code items locals events =
      .ok (code ++ (Block.code code.size tree).toArray, state.locals) state.events := by
  unfold Parser.behind at h
  exact append_eq_ok.2 ⟨tree, _, block_eq_ok.2 ⟨state, h, rfl, rfl⟩, rfl⟩

theorem Build.append_of_error {error : CompileError} {state : Parser.State}
    (h : Parser.behind items code locals events = .error error state) :
    append code items locals events = .error error state.events := by
  unfold Parser.behind at h
  refine bind_eq_error.2 (.inl (bind_eq_error.2 (.inl ?_)))
  simp only [parse, h]

variable {indexed : Option IndexedTable}
  (hconsistent : ∀ table ∈ indexed, table.Consistent)
include hconsistent

/-- An emitter and a parser of the same block start at the same place. -/
theorem Emit.behind_emits (items : List Item) (code : Array Instruction) (events : Array Event) :
    Emits nestingLimit code.toList (Emit.wholeBlock (items.length + 1))
      (Parser.wholeBlock items.length code.size)
      { stream := items, code, locals := indexed }
      { rest := items, locals := indexed.map IndexedTable.table, events }
      fun tree _ written => written = code.toList ++ Block.code code.size tree := by
  rw [← Array.length_toList]
  apply wholeBlock_emits
  · exact ⟨.plain, Nat.zero_add _, rfl, rfl, hconsistent⟩
  · exact Nat.le_refl items.length

theorem Emit.behind_of_ok {tree : Block} {state : Parser.State}
    (h : Parser.behind items code (indexed.map IndexedTable.table) events = .ok tree state) :
    ∃ emitter, behind items code indexed = .ok () emitter ∧
      emitter.code = code ++ (Block.code code.size tree).toArray ∧
      emitter.locals.map IndexedTable.table = state.locals := by
  have hemits := behind_emits hconsistent items code events
  unfold Parser.behind at h
  unfold Emits at hemits
  rw [h] at hemits
  obtain ⟨_, emitter, _, hemit, rfl, hshows⟩ := hemits
  refine ⟨emitter, hemit, ?_, hshows.locals⟩
  rw [← Array.toList_inj, hshows.code, Array.toList_append]

theorem Emit.behind_of_error {error : CompileError} {state : Parser.State}
    (h : Parser.behind items code (indexed.map IndexedTable.table) events = .error error state) :
    ∃ emitter, behind items code indexed = .error (.error error) emitter ∧
      code.toList <+: emitter.code.toList := by
  have hemits := behind_emits hconsistent items code events
  unfold Parser.behind at h
  unfold Emits at hemits
  rw [h] at hemits
  obtain ⟨emitter, hemit, -, hkept⟩ := hemits
  exact ⟨emitter, hemit, hkept⟩

end Behind

theorem IndexedTable.consistent_of_mem_declared (declared : Option (List Variable)) :
    ∀ table ∈ declared.map (IndexedTable.declareAll {}), table.Consistent := by
  intro table hmem
  obtain ⟨list, -, rfl⟩ := Option.map_eq_some_iff.1 hmem
  exact Consistent.empty.declareAll list

/-- Compiling a stream of items behind two pieces of code, with the same locals or none at the
start, fails at both places with the same error, or succeeds at both: with the same locals at the
end, and with code behind the two pieces that differs in the targets of jumps, by the distance of
the two places, and in nothing else. Written in place or read as a tree, it comes to the same, and
what stood there before is there at the end, also after an error. -/
theorem Emit.behind_two_places (items : List Item) (declared : Option (List Variable))
    (code code' : Array Instruction) (events events' : Array Event) :
    let indexed := declared.map (IndexedTable.declareAll {})
    let locals := indexed.map IndexedTable.table
    (∃ error emitter emitter' reported reported',
      behind items code indexed = .error (.error error) emitter ∧
      behind items code' indexed = .error (.error error) emitter' ∧
      Build.append code items locals events = .error error reported ∧
      Build.append code' items locals events' = .error error reported' ∧
      code.toList <+: emitter.code.toList ∧ code'.toList <+: emitter'.code.toList) ∨
    ∃ added added' locals' emitter emitter' reported reported',
      behind items code indexed = .ok () emitter ∧
      behind items code' indexed = .ok () emitter' ∧
      Build.append code items locals events = .ok (code ++ added, locals') reported ∧
      Build.append code' items locals events' = .ok (code' ++ added', locals') reported' ∧
      emitter.code = code ++ added ∧ emitter'.code = code' ++ added' ∧
      emitter.locals.map IndexedTable.table = locals' ∧
      emitter'.locals.map IndexedTable.table = locals' ∧
      Code.Moved (code'.size - code.size) added.toList added'.toList := by
  intro indexed locals
  have hconsistent := IndexedTable.consistent_of_mem_declared declared
  have hsame := Parser.behind_same items code code' locals events events'
  generalize hleft : Parser.behind items code locals events = left,
    hright : Parser.behind items code' locals events' = right at hsame
  cases hsame with
  | @error error state state' _ =>
      obtain ⟨emitter, hemit, hkept⟩ := behind_of_error hconsistent hleft
      obtain ⟨emitter', hemit', hkept'⟩ := behind_of_error hconsistent hright
      exact .inl ⟨error, emitter, emitter', _, _, hemit, hemit', Build.append_of_error hleft,
        Build.append_of_error hright, hkept, hkept'⟩
  | @ok tree state state' hreading =>
      obtain ⟨emitter, hemit, hcode, hlocals⟩ := behind_of_ok hconsistent hleft
      obtain ⟨emitter', hemit', hcode', hlocals'⟩ := behind_of_ok hconsistent hright
      have happend' := Build.append_of_ok hright
      rw [← hreading.locals] at happend' hlocals'
      refine .inr ⟨_, _, _, emitter, emitter', _, _, hemit, hemit', Build.append_of_ok hleft,
        happend', hcode, hcode', hlocals, hlocals', ?_⟩
      exact Block.moved_code tree (by omega)

end StackScript
