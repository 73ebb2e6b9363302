import StackScript.Proofs.Computation
import StackScript.Proofs.Rendering
import StackScript.Script

/-!
# Parsers in lockstep

Tokens carry the line they start on, and only messages use it. Two computations run in lockstep if
from states that agree but for lines they come to the same end, with results that correspond and
states that agree again; if they fail, their errors agree but for lines. Every parser runs in
lockstep with itself.
-/

namespace StackScript

variable {σ α β γ δ : Type}

/-! ## What is left without the lines -/

/-- All of a lexical error but its line. -/
def LexError.unlined : LexError → LexError
  | .unterminatedString _ => .unterminatedString 0
  | .unrecognizedCharacter character _ => .unrecognizedCharacter character 0

/-- All of a compile error but its line. -/
def CompileError.unlined : CompileError → CompileError
  | .lex error => .lex error.unlined
  | .unexpectedToken expected found => .unexpectedToken expected { found with line := 0 }
  | .unknownOperator _ symbol => .unknownOperator 0 symbol
  | .invalidNumber _ text => .invalidNumber 0 text
  | .unknownType _ name => .unknownType 0 name
  | .localOutsideFunction _ => .localOutsideFunction 0
  | .duplicateLocal _ name => .duplicateLocal 0 name
  | .duplicateParameter function name => .duplicateParameter function name
  | .duplicateGlobal name => .duplicateGlobal name
  | .nestingTooDeep _ => .nestingTooDeep 0

/-- All of an item but its line. -/
def Item.content : Item → Except LexError (TokenKind × String)
  | .ok token => .ok token.content
  | .error error => .error error.unlined

/-- Two tokens agree but for their lines. -/
def Token.Alike (left right : Token) : Prop :=
  left.content = right.content

/-- Two streams of items agree but for lines, item by item. -/
def Items.Alike (left right : List Item) : Prop :=
  left.map Item.content = right.map Item.content

/-- Two states of a parser agree but for lines. -/
structure Parser.State.Alike (left right : Parser.State) : Prop where
  rest : Items.Alike left.rest right.rest
  locals : left.locals = right.locals
  events : left.events = right.events

/-- Two computations ended alike: both succeeded with results that correspond, or both failed with
errors that agree but for lines. -/
inductive EndAlike (states : σ → σ → Prop) (results : α → β → Prop) :
    EStateM.Result CompileError σ α → EStateM.Result CompileError σ β → Prop
  | ok {result : α} {result' : β} {state state' : σ} (result_alike : results result result')
      (state_alike : states state state') :
      EndAlike states results (.ok result state) (.ok result' state')
  | error {error error' : CompileError} {state state' : σ}
      (error_alike : error.unlined = error'.unlined) (state_alike : states state state') :
      EndAlike states results (.error error state) (.error error' state')

/-- From states that correspond, two computations end alike. -/
def Lockstep (states : σ → σ → Prop) (results : α → β → Prop)
    (left : EStateM CompileError σ α) (right : EStateM CompileError σ β) : Prop :=
  ∀ state state', states state state' → EndAlike states results (left state) (right state')

namespace Lockstep

variable {states : σ → σ → Prop} {results : α → β → Prop} {results' : γ → δ → Prop}

theorem pure {result : α} {result' : β} (h : results result result') :
    Lockstep states results (pure result) (pure result') :=
  fun _ _ hstates => .ok h hstates

theorem throw {error error' : CompileError} (h : error.unlined = error'.unlined) :
    Lockstep states results (throw error) (throw error') :=
  fun _ _ hstates => .error h hstates

theorem bind {first : EStateM CompileError σ α} {first' : EStateM CompileError σ β}
    {next : α → EStateM CompileError σ γ} {next' : β → EStateM CompileError σ δ}
    (h : Lockstep states results first first')
    (hnext : ∀ value value', results value value' →
      Lockstep states results' (next value) (next' value')) :
    Lockstep states results' (first >>= next) (first' >>= next') := by
  intro state state' hstates
  have hfirst := h state state' hstates
  simp only [Bind.bind, EStateM.bind]
  generalize first state = left, first' state' = right at hfirst
  cases hfirst with
  | ok hvalue hmiddle => exact hnext _ _ hvalue _ _ hmiddle
  | error herror hmiddle => exact .error herror hmiddle

/-- After results that are the same on both sides, only what follows is left to compare. -/
theorem bind_same {first first' : EStateM CompileError σ α} {next : α → EStateM CompileError σ γ}
    {next' : α → EStateM CompileError σ δ} (h : Lockstep states Eq first first')
    (hnext : ∀ value, Lockstep states results' (next value) (next' value)) :
    Lockstep states results' (first >>= next) (first' >>= next') :=
  h.bind fun value _ hsame => hsame ▸ hnext value

/-- The same test on both sides decides for both. -/
theorem ite {test : Prop} [Decidable test] {yes no : EStateM CompileError σ α}
    {yes' no' : EStateM CompileError σ β} (hyes : Lockstep states results yes yes')
    (hno : Lockstep states results no no') :
    Lockstep states results (if test then yes else no) (if test then yes' else no') := by
  split
  · exact hyes
  · exact hno

/-- From the same state, a computation ends as it does. -/
theorem refl (computation : EStateM CompileError σ α) : Lockstep Eq Eq computation computation := by
  rintro state _ rfl
  cases computation state with
  | ok result after => exact .ok rfl rfl
  | error error after => exact .error rfl rfl

/-- A result that needs no state is the same on both sides. -/
theorem lift {computed : Except CompileError α} :
    Lockstep states Eq (liftM computed : EStateM CompileError σ α) (liftM computed) := by
  cases computed with
  | ok result => exact Lockstep.pure rfl
  | error error => exact Lockstep.throw rfl

end Lockstep

/-! ## Tokens -/

namespace Token.Alike

variable {left right : Token} (h : left.Alike right)
include h

theorem kind : left.kind = right.kind :=
  congrArg Prod.fst h

theorem text : left.text = right.text :=
  congrArg Prod.snd h

theorem isMark (symbol : String) : left.isMark symbol = right.isMark symbol := by
  simp only [Token.isMark, h.kind, h.text]

theorem isWord (word : String) : left.isWord word = right.isWord word := by
  simp only [Token.isWord, h.kind, h.text]

end Token.Alike

namespace Items.Alike

variable {items items' : List Item}

theorem cons {token token' : Token} (h : token.Alike token') (hrest : Items.Alike items items') :
    Items.Alike (.ok token :: items) (.ok token' :: items') := by
  unfold Items.Alike at hrest ⊢
  rw [List.map_cons, List.map_cons, hrest, Item.content, Item.content, h]

theorem of_content {left right : List Token}
    (h : left.map Token.content = right.map Token.content) :
    Items.Alike (left.map .ok) (right.map .ok) := by
  have hcontent : Item.content ∘ .ok = .ok ∘ Token.content := rfl
  rw [Items.Alike, List.map_map, List.map_map, hcontent, ← List.map_map, h, List.map_map]

theorem length_eq (h : Items.Alike items items') : items.length = items'.length := by
  simpa using congrArg List.length h

/-- Streams that agree but for lines are over at the same place, or start with a token or an error
that agrees but for its line. -/
theorem cases_head (h : Items.Alike items items') :
    (items = [] ∧ items' = []) ∨
      (∃ error error' rest rest', items = .error error :: rest ∧ items' = .error error' :: rest' ∧
        error.unlined = error'.unlined) ∨
      ∃ first first' rest rest', items = .ok first :: rest ∧ items' = .ok first' :: rest' ∧
        first.Alike first' ∧ Items.Alike rest rest' := by
  match items, items' with
  | [], [] => exact .inl ⟨rfl, rfl⟩
  | [], _ :: _ | _ :: _, [] => simp [Items.Alike] at h
  | item :: rest, item' :: rest' =>
      obtain ⟨hfirst, hrest⟩ := List.cons.inj h
      match item, item' with
      | .ok first, .ok first' =>
          exact .inr (.inr ⟨first, first', rest, rest', rfl, rfl, Except.ok.inj hfirst, hrest⟩)
      | .error error, .error error' =>
          exact .inr (.inl ⟨error, error', rest, rest', rfl, rfl, Except.error.inj hfirst⟩)
      | .ok _, .error _ | .error _, .ok _ => cases hfirst

end Items.Alike

/-! ## Parsers -/

namespace Parser

/-- Two parsers run in lockstep. -/
abbrev Parallel (results : α → β → Prop) (left : Parser α) (right : Parser β) : Prop :=
  Lockstep State.Alike results left right

variable {token token' : Token}

theorem next_parallel : Parallel Token.Alike next next := by
  intro state state' h
  unfold next
  rcases h.rest.cases_head with ⟨hleft, hright⟩ | ⟨_, _, _, _, hleft, hright, herror⟩ |
    ⟨_, _, _, _, hleft, hright, hfirst, hrest⟩
  · rw [hleft, hright]
    exact .ok rfl h
  · rw [hleft, hright]
    exact .error (congrArg CompileError.lex herror) h
  · rw [hleft, hright]
    exact .ok hfirst ⟨hrest, h.locals, h.events⟩

theorem peek_parallel : Parallel Token.Alike peek peek := by
  intro state state' h
  unfold peek
  rcases h.rest.cases_head with ⟨hleft, hright⟩ | ⟨_, _, _, _, hleft, hright, herror⟩ |
    ⟨_, _, _, _, hleft, hright, hfirst, -⟩
  · rw [hleft, hright]
    exact .ok rfl h
  · rw [hleft, hright]
    exact .error (congrArg CompileError.lex herror) h
  · rw [hleft, hright]
    exact .ok hfirst h

theorem unexpected_parallel {results : α → β → Prop} (expected : Expected)
    (h : token.Alike token') :
    Parallel results (unexpected expected token) (unexpected expected token') := by
  refine .throw ?_
  simp only [CompileError.unlined, h.kind, h.text]

theorem mark_parallel (symbol : String) : Parallel Token.Alike (mark symbol) (mark symbol) := by
  refine next_parallel.bind fun token token' h => ?_
  rw [h.isMark]
  exact .ite (.pure h) (unexpected_parallel _ h)

theorem identifier_parallel (expected : Expected) :
    Parallel Token.Alike (identifier expected) (identifier expected) := by
  refine next_parallel.bind fun token token' h => ?_
  rw [h.kind]
  exact .ite (.pure h) (unexpected_parallel _ h)

theorem declarableType_parallel (h : token.Alike token') :
    Parallel Eq (declarableType token) (declarableType token') := by
  unfold declarableType
  rw [h.text]
  cases TypeTag.ofName? token'.text with
  | none => exact .throw rfl
  | some type => exact .ite (.pure rfl) (.throw rfl)

theorem typedName_parallel (expected : Expected) :
    Parallel (fun left right => left.1.Alike right.1 ∧ left.2 = right.2) (typedName expected)
      (typedName expected) := by
  refine (identifier_parallel expected).bind fun name name' hname => ?_
  refine (identifier_parallel .typeName).bind fun word word' hword => ?_
  refine (declarableType_parallel hword).bind fun type type' htype => ?_
  exact .pure ⟨hname, htype⟩

theorem resolve_parallel (name : String) : Parallel Eq (resolve name) (resolve name) := by
  intro state state' h
  unfold resolve
  rw [h.locals]
  split <;> exact .ok rfl h

theorem settle_parallel (index target : Nat) :
    Parallel Eq (settle index target) (settle index target) := by
  intro state state' h
  exact .ok rfl ⟨h.rest, h.locals, by simp only [h.events]⟩

/-! ## Expressions -/

theorem term_parallel (h : token.Alike token') : Parallel Eq (term token) (term token') := by
  unfold term
  rw [h.kind, h.text]
  split
  · split
    · exact .pure rfl
    · exact .throw rfl
  · exact .pure rfl
  · exact (resolve_parallel token'.text).bind_same fun _ => .pure rfl
  · exact unexpected_parallel _ h

section Calls

variable {argument : Parser Expr} (h : Parallel Eq argument argument)
include h

theorem arguments_parallel (bound : Nat) :
    Parallel Eq (arguments argument bound) (arguments argument bound) := by
  induction bound with
  | zero => exact h.bind_same fun _ => .pure rfl
  | succ bound ih =>
      refine h.bind_same fun first => next_parallel.bind fun token token' htoken => ?_
      rw [htoken.isMark, htoken.isMark]
      refine .ite (.pure rfl) (.ite ?_ (unexpected_parallel _ htoken))
      exact ih.bind_same fun _ => .pure rfl

theorem callArguments_parallel (bound : Nat) :
    Parallel Eq (callArguments argument bound) (callArguments argument bound) := by
  refine peek_parallel.bind fun token token' htoken => ?_
  rw [htoken.isMark]
  exact .ite (next_parallel.bind fun _ _ _ => .pure rfl) (arguments_parallel h bound)

theorem calls_parallel (limit bound : Nat) (callee : Expr) :
    Parallel Eq (calls argument limit bound callee) (calls argument limit bound callee) := by
  induction bound generalizing callee with
  | zero => exact .pure rfl
  | succ bound ih =>
      refine peek_parallel.bind fun token token' htoken => ?_
      rw [htoken.isMark]
      refine .ite (next_parallel.bind fun _ _ _ => ?_) (.pure rfl)
      exact (callArguments_parallel h limit).bind_same fun given => ih (.call callee given)

theorem callable_parallel (bound : Nat) (htoken : token.Alike token') :
    Parallel Eq (callable argument bound token) (callable argument bound token') :=
  (term_parallel htoken).bind_same fun callee => calls_parallel h bound bound callee

end Calls

theorem expression_parallel (bound budget : Nat) :
    Parallel Eq (expression bound budget) (expression bound budget) := by
  induction budget with
  | zero => exact next_parallel.bind fun _ _ _ => .throw rfl
  | succ budget ih =>
      refine next_parallel.bind fun first first' hfirst => ?_
      refine (callable_parallel ih bound hfirst).bind_same fun left => ?_
      refine peek_parallel.bind fun token token' htoken => ?_
      rw [htoken.kind, htoken.text]
      refine .ite (next_parallel.bind fun _ _ _ => ?_) (.pure rfl)
      cases Operator.ofSymbol? token'.text with
      | none => exact .throw rfl
      | some operator => exact ih.bind_same fun _ => .pure rfl

/-! ## Statements -/

theorem closes_parallel (closing : Closing) (h : token.Alike token') :
    Parallel Eq (closing.closes token) (closing.closes token') := by
  unfold Closing.closes
  rw [h.kind, h.isMark]
  cases closing with
  | endOfInput => exact .ite (.pure rfl) (.ite (unexpected_parallel _ h) (.pure rfl))
  | brace => exact .ite (.pure rfl) (.ite (unexpected_parallel _ h) (.pure rfl))

theorem statements_parallel {statement : Nat → Token → Parser Stmt}
    (h : ∀ start token token', token.Alike token' →
      Parallel Eq (statement start token) (statement start token'))
    (closing : Closing) (bound start : Nat) :
    Parallel Eq (statements statement closing bound start)
      (statements statement closing bound start) := by
  induction bound generalizing start with
  | zero =>
      refine next_parallel.bind fun token token' htoken => ?_
      refine (closes_parallel closing htoken).bind_same fun closed => ?_
      exact .ite (.pure rfl) (unexpected_parallel _ htoken)
  | succ bound ih =>
      refine next_parallel.bind fun token token' htoken => ?_
      refine (closes_parallel closing htoken).bind_same fun closed => ?_
      refine .ite (.pure rfl) ((h start token token' htoken).bind_same fun first => ?_)
      exact (ih (start + first.size)).bind_same fun _ => .pure rfl

/-- The lines of the two words `local` need not be the same. -/
theorem localDeclaration_parallel (line line' : Nat) :
    Parallel Eq (localDeclaration line) (localDeclaration line') := by
  refine (typedName_parallel .localName).bind fun declared declared' hdeclared => ?_
  obtain ⟨name, type⟩ := declared
  obtain ⟨name', type'⟩ := declared'
  obtain ⟨hname, rfl⟩ := hdeclared
  intro state state' hstate
  dsimp only at hname ⊢
  rw [get_bind, get_bind, hstate.locals, hname.text]
  cases state'.locals with
  | none => exact .error rfl hstate
  | some table =>
      dsimp only
      cases table.declare ⟨name'.text, type⟩ with
      | error duplicate => exact .error rfl hstate
      | ok declared => exact .ok rfl ⟨hstate.rest, rfl, hstate.events⟩

/-- A test, a body and the jump over it. -/
theorem guarded_parallel {test : Parser Expr} {block : Nat → Parser Block}
    (htest : Parallel Eq test test) (hblock : ∀ start, Parallel Eq (block start) (block start))
    (place : Expr → Nat) (target : Expr → Block → Nat) (make : Expr → Block → Stmt) :
    Parallel Eq
      (do
        let test ← test
        let body ← block (place test + 1)
        settle (place test) (target test body)
        return make test body)
      (do
        let test ← test
        let body ← block (place test + 1)
        settle (place test) (target test body)
        return make test body) :=
  htest.bind_same fun _ => (hblock _).bind_same fun _ =>
    (settle_parallel _ _).bind_same fun _ => .pure rfl

theorem statement_parallel (bound budget : Nat) {block : Nat → Parser Block}
    (h : ∀ start, Parallel Eq (block start) (block start)) (start : Nat) (token token' : Token)
    (htoken : token.Alike token') :
    Parallel Eq (statement bound budget block start token)
      (statement bound budget block start token') := by
  have hexpression := expression_parallel bound budget
  have hevaluate : Parallel Eq
      (Stmt.evaluate <$> callable (expression bound budget) bound token)
      (Stmt.evaluate <$> callable (expression bound budget) bound token') :=
    (callable_parallel hexpression bound htoken).bind_same fun _ => .pure rfl
  unfold statement
  simp only [htoken.isMark, htoken.isWord, htoken.kind, htoken.text]
  refine .ite (.pure rfl) (.ite (.pure rfl) (.ite ?_ (.ite ?_ (.ite ?_ (.ite ?_ hevaluate)))))
  · exact guarded_parallel hexpression h _ _ _
  · exact guarded_parallel hexpression h _ _ _
  · exact localDeclaration_parallel _ _
  · refine peek_parallel.bind fun sign sign' hsign => ?_
    rw [hsign.kind]
    refine .ite (next_parallel.bind fun _ _ _ => ?_) hevaluate
    refine hexpression.bind_same fun value => ?_
    exact (resolve_parallel token'.text).bind_same fun _ => .pure rfl

theorem block_parallel (bound budget start : Nat) :
    Parallel Eq (block bound budget start) (block bound budget start) := by
  induction budget generalizing start with
  | zero => exact (mark_parallel _).bind fun _ _ _ => .throw rfl
  | succ budget ih =>
      refine (mark_parallel _).bind fun _ _ _ => ?_
      exact statements_parallel (statement_parallel bound budget ih) .brace bound start

theorem wholeBlock_parallel (bound start : Nat) :
    Parallel Eq (wholeBlock bound start) (wholeBlock bound start) :=
  statements_parallel (statement_parallel bound nestingLimit (block_parallel bound nestingLimit))
    .endOfInput bound start

end Parser

end StackScript
