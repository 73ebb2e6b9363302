import Mathlib
import StackScript.Native
import StackScript.Proofs.Relocation
import StackScript.Proofs.Rendering

/-!
# Tokens on demand

A builder takes the tokens of its top-level code one by one and meets a lexical error only when it
comes to it; a script is divided into tokens before any of it is read. For a text without
declarations the two agree wherever they can. What the builder does before it comes to a lexical
error depends on the tokens in front of it alone, so it either reports that error or fails as it
does on any stream that starts with these tokens. In particular it never succeeds.
-/

namespace StackScript

namespace Parser

variable {α β : Type}

/-! ## Streams that share their first tokens -/

/-- Two parsers have the same tokens before them, fewer than `count`. Behind these the left one
comes to a lexical error, and the right one goes on in any way. -/
structure Shares (error : LexError) (stream : List Item) (count : Nat) (left right : State) :
    Prop where
  rest : ∃ tokens : List Token, tokens.length < count ∧
    left.rest = tokens.map .ok ++ [.error error] ∧ right.rest = tokens.map .ok ++ stream
  line : left.line = right.line
  locals : left.locals = right.locals
  events : left.events = right.events

/-- How the two parsers end: the left one with the lexical error, or both in the same way. -/
inductive Foreseen (error : LexError) (states : State → State → Prop) :
    EStateM.Result CompileError State α → EStateM.Result CompileError State α → Prop
  | met {state : State} {right : EStateM.Result CompileError State α} :
      Foreseen error states (.error (.lex error) state) right
  | ok {result : α} {state state' : State} (h : states state state') :
      Foreseen error states (.ok result state) (.ok result state')
  | error {failure : CompileError} {state state' : State} (h : state.events = state'.events) :
      Foreseen error states (.error failure state) (.error failure state')

section Shared

variable (error : LexError) (stream : List Item)

/-- With fewer than `count` tokens shared, two readers end alike or the left one meets the error;
if they succeed, fewer than `left` tokens are shared still. -/
def Foresees (count left : Nat) (reader reader' : Parser α) : Prop :=
  ∀ state state', Shares error stream count state state' →
    Foreseen error (Shares error stream left) (reader state) (reader' state')

/-- Two readers that take one token at least, while fewer than `count` are shared. -/
abbrev Consumes (count : Nat) (reader reader' : Parser α) : Prop :=
  ∀ n < count, Foresees error stream (n + 1) n reader reader'

end Shared

variable {error : LexError} {stream : List Item} {count left : Nat}

theorem Shares.mono {count' : Nat} {state state' : State}
    (h : Shares error stream count state state') (hle : count ≤ count') :
    Shares error stream count' state state' := by
  obtain ⟨tokens, hfew, hrest, hrest'⟩ := h.rest
  exact ⟨⟨tokens, by omega, hrest, hrest'⟩, h.line, h.locals, h.events⟩

namespace Foresees

theorem mono {count' left' : Nat} {reader reader' : Parser α}
    (h : Foresees error stream count left reader reader') (hcount : count' ≤ count)
    (hleft : left ≤ left') : Foresees error stream count' left' reader reader' := by
  intro state state' hshares
  have hends := h state state' (hshares.mono hcount)
  generalize reader state = result, reader' state' = result' at hends
  cases hends with
  | met => exact .met
  | ok hstates => exact .ok (hstates.mono hleft)
  | error hevents => exact .error hevents

/-- No two streams share fewer than no tokens. -/
theorem none {reader reader' : Parser α} : Foresees error stream 0 left reader reader' := by
  intro state state' hshares
  obtain ⟨tokens, hfew, -⟩ := hshares.rest
  exact absurd hfew (Nat.not_lt_zero _)

theorem pure {result : α} :
    Foresees error stream count count (Pure.pure result) (Pure.pure result) := by
  intro state state' h
  exact .ok h

theorem throw {failure : CompileError} :
    Foresees error stream count left (MonadExcept.throw failure : Parser α)
      (MonadExcept.throw failure) := by
  intro state state' h
  exact .error h.events

theorem bind {middle : Nat} {first first' : Parser α} {next next' : α → Parser β}
    (h : Foresees error stream count middle first first')
    (hnext : ∀ value, Foresees error stream middle left (next value) (next' value)) :
    Foresees error stream count left (first >>= next) (first' >>= next') := by
  intro state state' hstates
  have hfirst := h state state' hstates
  simp only [Bind.bind, EStateM.bind]
  generalize first state = result, first' state' = result' at hfirst
  cases hfirst with
  | met => exact .met
  | ok hmiddle => exact hnext _ _ _ hmiddle
  | error hevents => exact .error hevents

theorem ite {test : Prop} [Decidable test] {yes yes' no no' : Parser α}
    (hyes : Foresees error stream count left yes yes')
    (hno : Foresees error stream count left no no') :
    Foresees error stream count left (if test then yes else no) (if test then yes' else no') := by
  split
  · exact hyes
  · exact hno

end Foresees

theorem Consumes.mono {count' : Nat} {reader reader' : Parser α}
    (h : Consumes error stream count reader reader') (hle : count' ≤ count) :
    Consumes error stream count' reader reader' :=
  fun n hn => h n (by omega)

/-- What takes a token does not share more afterwards. -/
theorem Consumes.foresees {reader reader' : Parser α}
    (h : Consumes error stream count reader reader') :
    Foresees error stream count count reader reader' := by
  cases count with
  | zero => exact .none
  | succ n => exact (h n (Nat.lt_succ_self n)).mono (Nat.le_refl _) (Nat.le_succ n)

/-! ## Readers -/

theorem next_consumes : Consumes error stream count next next := by
  intro n _ state state' h
  obtain ⟨tokens, hfew, hrest, hrest'⟩ := h.rest
  unfold next
  rw [hrest, hrest']
  cases tokens with
  | nil => exact .met
  | cons token tokens =>
      exact .ok ⟨⟨tokens, Nat.lt_of_succ_lt_succ hfew, rfl, rfl⟩, rfl, h.locals, h.events⟩

theorem peek_foresees : Foresees error stream count count peek peek := by
  intro state state' h
  obtain ⟨tokens, hfew, hrest, hrest'⟩ := h.rest
  unfold peek
  rw [hrest, hrest']
  cases tokens with
  | nil => exact .met
  | cons token tokens => exact .ok h

/-- Whoever looks ahead when no token is left meets the error, whatever happens on the right. -/
theorem peek_bind_foresees {next : Token → Parser α} {right : Parser α} :
    Foresees error stream 1 left (peek >>= next) right := by
  intro state state' h
  obtain ⟨tokens, hfew, hrest, -⟩ := h.rest
  obtain rfl : tokens = [] := List.length_eq_zero_iff.1 (by omega)
  simp only [Bind.bind, EStateM.bind, peek, hrest]
  exact .met

theorem mark_consumes (symbol : String) :
    Consumes error stream count (mark symbol) (mark symbol) := by
  intro n hn
  apply (next_consumes n hn).bind
  intro token
  exact .ite .pure .throw

theorem identifier_consumes (expected : Expected) :
    Consumes error stream count (identifier expected) (identifier expected) := by
  intro n hn
  apply (next_consumes n hn).bind
  intro token
  exact .ite .pure .throw

theorem declarableType_foresees (token : Token) :
    Foresees error stream count count (declarableType token) (declarableType token) := by
  unfold declarableType
  cases TypeTag.ofName? token.text with
  | none => exact .throw
  | some type => exact .ite .pure .throw

theorem typedName_foresees (expected : Expected) :
    Foresees error stream count count (typedName expected) (typedName expected) := by
  apply (identifier_consumes expected).foresees.bind
  intro name
  apply (identifier_consumes .typeName).foresees.bind
  intro word
  apply (declarableType_foresees word).bind
  intro type
  exact .pure

theorem resolve_foresees (name : String) :
    Foresees error stream count count (resolve name) (resolve name) := by
  intro state state' h
  unfold resolve
  rw [h.locals]
  split <;> exact .ok h

theorem settle_foresees (index target : Nat) :
    Foresees error stream count count (settle index target) (settle index target) := by
  intro state state' h
  exact .ok ⟨h.rest, h.line, h.locals, congrArg (Array.push · _) h.events⟩

/-! ### Expressions -/

theorem term_foresees (token : Token) :
    Foresees error stream count count (term token) (term token) := by
  unfold term
  split
  · split
    · exact .pure
    · exact .throw
  · exact .pure
  · exact (resolve_foresees token.text).bind fun _ => .pure
  · exact .throw

section Calls

variable {argument argument' : Parser Expr} {bound bound' limit limit' : Nat}

/-- The two bounds may differ: each is large enough for the tokens that are shared. -/
theorem arguments_consumes (h : Consumes error stream count argument argument')
    (hbound : count ≤ bound) (hbound' : count ≤ bound' + 1) :
    Consumes error stream count (arguments argument bound) (arguments argument' bound') := by
  intro n hn
  -- By induction on the number of tokens: when none is left both bounds may be used up.
  induction n generalizing count bound bound' with
  | zero =>
      obtain ⟨bound, rfl⟩ : ∃ m, bound = m + 1 := ⟨bound - 1, by omega⟩
      cases bound' with
      | zero => exact (h 0 hn).bind fun _ => .none
      | succ bound' => exact (h 0 hn).bind fun _ => .none
  | succ n ih =>
      obtain ⟨bound, rfl⟩ : ∃ m, bound = m + 1 := ⟨bound - 1, by omega⟩
      obtain ⟨bound', rfl⟩ : ∃ m, bound' = m + 1 := ⟨bound' - 1, by omega⟩
      have hmore : Foresees error stream (n + 1) n (arguments argument bound)
          (arguments argument' bound') :=
        ih (h.mono (Nat.le_of_lt hn)) (by omega) (by omega) (Nat.lt_succ_self n)
      apply (h (n + 1) hn).bind
      intro first
      apply next_consumes.foresees.bind
      intro token
      refine .ite .pure (.ite ?_ .throw)
      exact (hmore.mono (Nat.le_refl _) (Nat.le_succ n)).bind fun _ => .pure

theorem callArguments_consumes (h : Consumes error stream count argument argument')
    (hbound : count ≤ bound) (hbound' : count ≤ bound' + 1) :
    Consumes error stream count (callArguments argument bound)
      (callArguments argument' bound') := by
  intro n hn
  apply peek_foresees.bind
  intro token
  refine .ite ?_ (arguments_consumes h hbound hbound' n hn)
  exact (next_consumes n hn).bind fun _ => .pure

theorem calls_foresees (h : Consumes error stream count argument argument')
    (hlimit : count ≤ limit) (hlimit' : count ≤ limit' + 1) (hbound : count ≤ bound)
    (hbound' : count ≤ bound' + 1) (callee : Expr) :
    Foresees error stream count count (calls argument limit bound callee)
      (calls argument' limit' bound' callee) := by
  induction count generalizing bound bound' callee with
  | zero => exact .none
  | succ n ih =>
      obtain ⟨bound, rfl⟩ : ∃ m, bound = m + 1 := ⟨bound - 1, by omega⟩
      cases bound' with
      | zero =>
          obtain rfl : n = 0 := by omega
          exact peek_bind_foresees
      | succ bound' =>
          have hfewer := h.mono (Nat.le_succ n)
          apply peek_foresees.bind
          intro token
          refine .ite ?_ .pure
          apply (next_consumes n (Nat.lt_succ_self n)).bind
          intro parenthesis
          apply (callArguments_consumes hfewer (by omega) (by omega)).foresees.bind
          intro given
          have hmore : Foresees error stream n n (calls argument limit bound (.call callee given))
              (calls argument' limit' bound' (.call callee given)) :=
            ih hfewer (by omega) (by omega) (by omega) (by omega) _
          exact hmore.mono (Nat.le_refl n) (Nat.le_succ n)

theorem callable_foresees (h : Consumes error stream count argument argument')
    (hbound : count ≤ bound) (hbound' : count ≤ bound' + 1) (token : Token) :
    Foresees error stream count count (callable argument bound token)
      (callable argument' bound' token) :=
  (term_foresees token).bind fun callee =>
    calls_foresees h hbound hbound' hbound hbound' callee

end Calls

section Bounds

variable {bound bound' : Nat}

theorem expression_consumes (hbound : count ≤ bound) (hbound' : count ≤ bound' + 1)
    (budget : Nat) :
    Consumes error stream count (expression bound budget) (expression bound' budget) := by
  induction budget generalizing count with
  | zero =>
      intro n hn
      exact (next_consumes n hn).bind fun _ => .throw
  | succ budget ih =>
      intro n hn
      have hargument : Consumes error stream n (expression bound budget)
          (expression bound' budget) := ih (by omega) (by omega)
      apply (next_consumes n hn).bind
      intro first
      apply (callable_foresees hargument (by omega) (by omega) first).bind
      intro left
      apply peek_foresees.bind
      intro token
      refine .ite (next_consumes.foresees.bind fun _ => ?_) .pure
      cases Operator.ofSymbol? token.text with
      | none => exact .throw
      | some operator => exact hargument.foresees.bind fun _ => .pure

/-! ### Statements -/

theorem closes_foresees (closing : Closing) (token : Token) :
    Foresees error stream count count (closing.closes token) (closing.closes token) := by
  cases closing with
  | endOfInput => exact .ite .pure (.ite .throw .pure)
  | brace => exact .ite .pure (.ite .throw .pure)

theorem statements_consumes {statement statement' : Nat → Token → Parser Stmt}
    (h : ∀ n ≤ count, ∀ start token,
      Foresees error stream n n (statement start token) (statement' start token))
    (closing : Closing) (hbound : count ≤ bound) (hbound' : count ≤ bound' + 1) (start : Nat) :
    Consumes error stream count (statements statement closing bound start)
      (statements statement' closing bound' start) := by
  intro n hn
  induction n generalizing count bound bound' start with
  | zero =>
      obtain ⟨bound, rfl⟩ : ∃ m, bound = m + 1 := ⟨bound - 1, by omega⟩
      cases bound' with
      | zero => exact (next_consumes 0 hn).bind fun _ => .none
      | succ bound' => exact (next_consumes 0 hn).bind fun _ => .none
  | succ n ih =>
      obtain ⟨bound, rfl⟩ : ∃ m, bound = m + 1 := ⟨bound - 1, by omega⟩
      obtain ⟨bound', rfl⟩ : ∃ m, bound' = m + 1 := ⟨bound' - 1, by omega⟩
      apply (next_consumes (n + 1) hn).bind
      intro token
      apply (closes_foresees closing token).bind
      intro closed
      refine .ite .pure ((h (n + 1) (by omega) start token).bind fun first => ?_)
      have hmore : Foresees error stream (n + 1) n
          (statements statement closing bound (start + first.size))
          (statements statement' closing bound' (start + first.size)) :=
        ih (fun m hm => h m (Nat.le_trans hm (Nat.le_of_lt hn))) (by omega) (by omega) _
          (Nat.lt_succ_self n)
      exact (hmore.mono (Nat.le_refl _) (Nat.le_succ n)).bind fun _ => .pure

theorem localDeclaration_foresees (line : Nat) :
    Foresees error stream count count (localDeclaration line) (localDeclaration line) := by
  apply (typedName_foresees .localName).bind
  rintro ⟨name, type⟩ state state' h
  dsimp only
  rw [get_bind, get_bind, h.locals]
  cases state'.locals with
  | none => exact .error h.events
  | some table =>
      dsimp only
      cases table.declare ⟨name.text, type⟩ with
      | error duplicate => exact .error h.events
      | ok declared => exact .ok ⟨h.rest, h.line, rfl, h.events⟩

/-- A test, a body and the jump over it. -/
theorem guarded_foresees {test test' : Parser Expr} {block block' : Nat → Parser Block}
    (htest : Foresees error stream count count test test')
    (hblock : ∀ start, Foresees error stream count count (block start) (block' start))
    (place : Expr → Nat) (target : Expr → Block → Nat) (make : Expr → Block → Stmt) :
    Foresees error stream count count
      (do
        let test ← test
        let body ← block (place test + 1)
        settle (place test) (target test body)
        return make test body)
      (do
        let test ← test'
        let body ← block' (place test + 1)
        settle (place test) (target test body)
        return make test body) :=
  htest.bind fun _ => (hblock _).bind fun _ => (settle_foresees _ _).bind fun _ => .pure

theorem statement_foresees (hbound : count ≤ bound) (hbound' : count ≤ bound' + 1) (budget : Nat)
    {block block' : Nat → Parser Block}
    (h : ∀ start, Foresees error stream count count (block start) (block' start)) (start : Nat)
    (token : Token) :
    Foresees error stream count count (statement bound budget block start token)
      (statement bound' budget block' start token) := by
  have hargument : Consumes error stream count (expression bound budget)
      (expression bound' budget) := expression_consumes hbound hbound' budget
  have hexpression := hargument.foresees
  have hevaluate : Foresees error stream count count
      (Stmt.evaluate <$> callable (expression bound budget) bound token)
      (Stmt.evaluate <$> callable (expression bound' budget) bound' token) :=
    (callable_foresees hargument hbound hbound' token).bind fun _ => .pure
  refine .ite .pure (.ite .pure (.ite ?_ (.ite ?_ (.ite ?_ (.ite ?_ hevaluate)))))
  · exact guarded_foresees hexpression h _ _ _
  · exact guarded_foresees hexpression h _ _ _
  · exact localDeclaration_foresees _
  · apply peek_foresees.bind
    intro sign
    refine .ite (next_consumes.foresees.bind fun _ => ?_) hevaluate
    apply hexpression.bind
    intro value
    exact (resolve_foresees token.text).bind fun _ => .pure

theorem block_consumes (hbound : count ≤ bound) (hbound' : count ≤ bound' + 1)
    (budget start : Nat) :
    Consumes error stream count (block bound budget start) (block bound' budget start) := by
  induction budget generalizing count start with
  | zero =>
      intro n hn
      exact (mark_consumes _ n hn).bind fun _ => .throw
  | succ budget ih =>
      intro n hn
      apply (mark_consumes _ n hn).bind
      intro brace
      have hstatement : ∀ m ≤ n, ∀ start token, Foresees error stream m m
          (statement bound budget (block bound budget) start token)
          (statement bound' budget (block bound' budget) start token) := by
        intro m hm
        apply statement_foresees (by omega) (by omega)
        intro start
        exact Consumes.foresees (ih (by omega) (by omega) start)
      exact (statements_consumes hstatement .brace (by omega) (by omega) start).foresees

theorem wholeBlock_consumes (hbound : count ≤ bound) (hbound' : count ≤ bound' + 1)
    (start : Nat) :
    Consumes error stream count (wholeBlock bound start) (wholeBlock bound' start) := by
  apply statements_consumes _ .endOfInput hbound hbound'
  intro n hn
  apply statement_foresees (by omega) (by omega)
  intro start
  exact (block_consumes (by omega) (by omega) nestingLimit start).foresees

end Bounds

/-- Reading tokens up to a lexical error, and reading the same tokens with any others behind. -/
theorem behind_foresees (tokens : List Token) (error : LexError) (stream : List Item)
    (code : Array Instruction) (locals : Option SlotTable) (events : Array Event) :
    Foreseen error (Shares error stream tokens.length)
      (behind (tokens.map .ok ++ [.error error]) code locals events)
      (behind (tokens.map .ok ++ stream) code locals events) := by
  let items : List Item := tokens.map .ok ++ [.error error]
  let items' : List Item := tokens.map .ok ++ stream
  have hlength : items.length = tokens.length + 1 := by simp [items]
  have hlength' : tokens.length ≤ items'.length := by simp [items']
  have hreads : Consumes error stream (tokens.length + 1) (wholeBlock items.length code.size)
      (wholeBlock items'.length code.size) :=
    wholeBlock_consumes (by omega) (by omega) code.size
  apply hreads tokens.length (Nat.lt_succ_self _)
  exact ⟨⟨tokens, Nat.lt_succ_self _, rfl, rfl⟩, rfl, rfl, rfl⟩

/-- If no token before a lexical error ends the input, no block ends there either. -/
theorem behind_ne_ok {tokens : List Token} (hopen : ∀ token ∈ tokens, token.kind ≠ .eof)
    {error : LexError} {code : Array Instruction} {locals : Option SlotTable}
    {events : Array Event} {tree : Block} {state : State} :
    behind (tokens.map .ok ++ [.error error]) code locals events ≠ .ok tree state := by
  intro h
  obtain ⟨_, middle, last, hreads, hnext, hlast, -⟩ := wholeBlock_ok h (Nat.le_refl _)
  obtain ⟨taken, hitems, -⟩ := hreads.takes
  have hends := lookahead_of_next hnext
  cases hrest : middle.rest with
  | nil =>
      have hmem : (.error error : Item) ∈ taken.map .ok ++ middle.rest :=
        hitems ▸ List.mem_append_right _ List.mem_cons_self
      simp [hrest] at hmem
  | cons item others =>
      rw [hrest, hlast] at hends
      cases item with
      | error error => cases hends
      | ok token =>
          have hmem : (.ok token : Item) ∈ tokens.map .ok ++ [.error error] := by
            dsimp only at hitems
            rw [hitems, hrest]
            simp
          have htoken : token ∈ tokens := by simpa using hmem
          exact hopen token htoken (Token.kind_eq_eof_iff.2 (Option.some.inj hends))

end Parser

/-! ## Tokens on demand and tokens in advance -/

namespace Builder

variable {ν : Type} {builder : Builder ν} {items : List Item} {events : Array Event}

theorem buildOfItems_of_error {failure : CompileError} {state : Parser.State}
    (h : Parser.behind items builder.code none events = .error failure state) :
    builder.buildOfItems items events = .error failure state.events :=
  bind_eq_error.2 (.inl (Build.append_of_error h))

/-- Before a lexical error that it does not come to, a builder fails as it does on any stream that
starts with the tokens before this error. -/
theorem buildOfItems_before_error (builder : Builder ν) {tokens : List Token}
    (hopen : ∀ token ∈ tokens, token.kind ≠ .eof) (error : LexError) (events : Array Event) :
    ∃ failure reported,
      builder.buildOfItems (tokens.map .ok ++ [.error error]) events = .error failure reported ∧
      (failure = .lex error ∨ ∀ stream,
        builder.buildOfItems (tokens.map .ok ++ stream) events = .error failure reported) := by
  cases hleft : Parser.behind (tokens.map .ok ++ [.error error]) builder.code none events with
  | ok tree state => exact absurd hleft (Parser.behind_ne_ok hopen)
  | error failure state =>
      refine ⟨failure, state.events, buildOfItems_of_error hleft, ?_⟩
      by_cases hmet : failure = .lex error
      · exact .inl hmet
      · refine .inr fun stream => ?_
        have hends := Parser.behind_foresees tokens error stream builder.code none events
        rw [hleft] at hends
        generalize hright : Parser.behind (tokens.map .ok ++ stream) builder.code none events =
          right at hends
        cases hends with
        | met => exact absurd rfl hmet
        | error hevents => rw [hevents, buildOfItems_of_error hright]

/-- A text with a lexical error is not compiled. The error that is reported is this one, or one that
depends on the tokens in front of it alone. -/
theorem build_of_lex_error {source : String} {error : LexError}
    (h : Token.tokenize source = .error error) (builder : Builder ν) :
    ∃ tokens : List Token, Token.scan source = tokens.map .ok ++ [.error error] ∧
      ∀ events, ∃ failure reported, builder.build source events = .error failure reported ∧
        (failure = .lex error ∨ ∀ stream,
          builder.buildOfItems (tokens.map .ok ++ stream) events = .error failure reported) := by
  obtain ⟨tokens, hscan, hopen⟩ := Token.scan_of_tokenize_error h
  refine ⟨tokens, hscan, fun events => ?_⟩
  rw [build, hscan]
  exact buildOfItems_before_error builder hopen error events

end Builder

namespace Script

variable {ν : Type} {source : String} {tokens : List Token}

/-- The text starts with no declaration. -/
def Undeclared (source : String) : Prop :=
  ∀ token rest, Token.scan source = .ok token :: rest →
    ¬token.isWord "var" ∧ ¬token.isWord "func"

theorem declaration?_of_undeclared (hundeclared : Undeclared source)
    (hscan : Token.scan source = tokens.map .ok) (limit : Nat) {state : Parser.State}
    (hrest : state.rest = tokens.map .ok) :
    Parser.declaration? limit state = .ok none state := by
  cases tokens with
  | nil =>
      have hpeek : Parser.peek state = .ok (.eof state.line) state := by
        simp only [Parser.peek, hrest, List.map_nil]
      exact bind_eq_ok.2 ⟨_, _, hpeek, rfl⟩
  | cons token tokens =>
      have hpeek : Parser.peek state = .ok token state := by
        simp only [Parser.peek, hrest, List.map_cons]
      obtain ⟨hvar, hfunc⟩ := hundeclared token _ hscan
      unfold Parser.declaration?
      rw [bind_of_ok hpeek, if_neg hvar, if_neg hfunc]
      rfl

theorem declarations_of_undeclared (hundeclared : Undeclared source)
    (hscan : Token.scan source = tokens.map .ok) (builder : Builder ν) (limit bound : Nat)
    {state : Parser.State} (hrest : state.rest = tokens.map .ok) :
    declarations limit bound builder state = .ok ([], builder) state := by
  cases bound with
  | zero => rfl
  | succ bound =>
      have hnone := declaration?_of_undeclared hundeclared hscan limit hrest
      exact bind_eq_ok.2 ⟨_, _, hnone, rfl⟩

/-- A text without declarations and lexical errors is compiled as top-level code. -/
theorem compileWith_of_undeclared (hundeclared : Undeclared source)
    (htokens : Token.tokenize source = .ok tokens) (builder : Builder ν) :
    compileWith builder source = builder.build source := by
  funext events
  have hscan := Token.tokenize_eq_ok.1 htokens
  let items : List Item := tokens.map .ok
  have hparse : Build.parse items none (declarations items.length items.length builder) events =
      .ok (([], builder), { rest := items, events }) events := by
    unfold Build.parse
    rw [declarations_of_undeclared hundeclared hscan builder items.length items.length rfl]
  have hlift : (liftM (Except.mapError CompileError.lex (.ok tokens)) : Build (List Token)) events =
      .ok tokens events := rfl
  unfold compileWith Builder.build
  rw [htokens, hscan, bind_of_ok hlift, bind_of_ok hparse]
  rfl

theorem compileWith_of_lex_error {error : LexError} (h : Token.tokenize source = .error error)
    (builder : Builder ν) (events : Array Event) :
    compileWith builder source events = .error (.lex error) events := by
  unfold compileWith
  rw [h]
  rfl

/-- A text that starts with no declaration, compiled as a script without builtins and compiled as
top-level code whose tokens are taken on demand. Both succeed on the same texts, with the same
program and the same reports. If the text has no lexical error they do the same in every way. If it
has one, the script fails with it; the top-level code fails with it too, or with an error that
comes before it: one that any stream with the same tokens up to there has. -/
theorem compile_on_demand (source : String) (hundeclared : Undeclared source) :
    let eager : Build (Program ν) := compile [] source
    let onDemand : Build (Program ν) := Builder.build {} source
    (∀ events program reported,
      onDemand events = .ok program reported ↔ eager events = .ok program reported) ∧
    (∀ tokens, Token.tokenize source = .ok tokens → onDemand = eager) ∧
    ∀ error, Token.tokenize source = .error error →
      ∃ tokens : List Token, Token.scan source = tokens.map .ok ++ [.error error] ∧
        ∀ events, eager events = .error (.lex error) events ∧
          ∃ failure reported, onDemand events = .error failure reported ∧
            (failure = .lex error ∨ ∀ stream,
              Builder.buildOfItems ({} : Builder ν) (tokens.map .ok ++ stream) events =
                .error failure reported) := by
  intro eager onDemand
  have hsame : ∀ tokens, Token.tokenize source = .ok tokens → onDemand = eager :=
    fun tokens htokens => (compileWith_of_undeclared hundeclared htokens {}).symm
  refine ⟨fun events program reported => ?_, hsame, fun error herror => ?_⟩
  · cases htokens : Token.tokenize source with
    | ok tokens => rw [hsame tokens htokens]
    | error error =>
        -- neither of them succeeds
        have heager : eager events = _ := compileWith_of_lex_error htokens {} events
        obtain ⟨_, -, hfails⟩ := Builder.build_of_lex_error htokens ({} : Builder ν)
        obtain ⟨failure, reported', hfailure, -⟩ := hfails events
        have honDemand : onDemand events = _ := hfailure
        rw [heager, honDemand]
        simp
  · obtain ⟨tokens, hscan, hfails⟩ := Builder.build_of_lex_error herror ({} : Builder ν)
    exact ⟨tokens, hscan, fun events =>
      ⟨compileWith_of_lex_error herror {} events, hfails events⟩⟩

/-- The assignment sign starts no statement, so the character behind it is never looked at. -/
theorem compile_on_demand_assign_sign :
    let sign : Token := ⟨.assign, "=", 1⟩
    let error : LexError := .unrecognizedCharacter '@' 1
    Undeclared "= @" ∧ Token.tokenize "= @" = .error error ∧
      compile ([] : List (Builtin Native)) "= @" #[] = .error (.lex error) #[] ∧
      Builder.build ({} : Builder Native) "= @" #[] = .error (.unexpectedToken .term sign) #[] ∧
      ∀ stream, Builder.buildOfItems ({} : Builder Native) (.ok sign :: stream) #[] =
        .error (.unexpectedToken .term sign) #[] := by
  intro sign error
  have hscan : Token.scan "= @" = [.ok sign, .error error] := by cbv
  have hundeclared : Undeclared "= @" := by
    intro token rest h
    rw [hscan] at h
    cases h
    decide
  have herror : Token.tokenize "= @" = .error error := by cbv
  have hbuild : Builder.build ({} : Builder Native) "= @" #[] =
      .error (.unexpectedToken .term sign) #[] := by cbv
  obtain ⟨-, -, hfails⟩ := @compile_on_demand Native "= @" hundeclared
  obtain ⟨tokens, htokens, hboth⟩ := hfails error herror
  obtain ⟨heager, failure, reported, honDemand, hearlier⟩ := hboth #[]
  obtain ⟨rfl, rfl⟩ := EStateM.Result.error.inj (hbuild.symm.trans honDemand)
  have hfront : tokens.map Except.ok = [.ok sign] :=
    List.append_cancel_right (htokens.symm.trans hscan)
  refine ⟨hundeclared, herror, heager, hbuild, fun stream => ?_⟩
  rcases hearlier with hlex | hevery
  · cases hlex
  · rw [← List.singleton_append, ← hfront]
    exact hevery stream

end Script

end StackScript
