import StackScript.Proofs.Computation
import StackScript.Proofs.Unambiguity

/-!
# What the parser accepts has a derivation

Whenever a reader succeeds, the tokens it has taken spell a derivation of its rule, and its result
is the tree of that derivation. Nothing is asked of the tokens.
-/

namespace StackScript.Parser

open Grammar

/-- A stream starts with tokens that spell a word, and `rest` follows them. -/
def Spells (items : List Item) (word : List Terminal) (rest : List Item) : Prop :=
  ∃ tokens : List Token, items = tokens.map .ok ++ rest ∧ tokens.map Token.terminal = word

/-- Between two states of the parser, tokens were taken that spell a word. -/
def State.Takes (before : State) (word : List Terminal) (after : State) : Prop :=
  Spells before.rest word after.rest

/-- The parser took a word and declared nothing. -/
structure State.Passes (before : State) (word : List Terminal) (after : State) : Prop where
  takes : before.Takes word after
  locals : after.locals = before.locals

namespace State

theorem Takes.refl (state : State) : state.Takes [] state :=
  ⟨[], rfl, rfl⟩

theorem Takes.trans {before middle after : State} {word word' : List Terminal}
    (h : before.Takes word middle) (h' : middle.Takes word' after) :
    before.Takes (word ++ word') after := by
  obtain ⟨tokens, hrest, rfl⟩ := h
  obtain ⟨tokens', hrest', rfl⟩ := h'
  exact ⟨tokens ++ tokens', by simp [hrest, hrest'], List.map_append⟩

theorem Takes.length {before after : State} {word : List Terminal} (h : before.Takes word after) :
    before.rest.length = word.length + after.rest.length := by
  obtain ⟨tokens, hrest, rfl⟩ := h
  simp [hrest]

theorem Passes.refl (state : State) : state.Passes [] state :=
  ⟨.refl state, rfl⟩

theorem Passes.trans {before middle after : State} {word word' : List Terminal}
    (h : before.Passes word middle) (h' : middle.Passes word' after) :
    before.Passes (word ++ word') after :=
  ⟨h.takes.trans h'.takes, h'.locals.trans h.locals⟩

theorem Passes.cons {before middle after : State} {symbol : Terminal} {word : List Terminal}
    (h : before.Passes [symbol] middle) (h' : middle.Passes word after) :
    before.Passes (symbol :: word) after :=
  h.trans h'

end State

/-! ## Single tokens -/

/-- The next token comes from the stream, or the stream is at its end. -/
theorem next_ok {state state' : State} {token : Token} (h : next state = .ok token state') :
    state.Passes [token.terminal] state' ∨
      (state.rest = [] ∧ state' = state ∧ token.terminal = .endOfInput) := by
  unfold next at h
  split at h
  next hrest =>
    injection h with h h'
    subst h h'
    exact .inr ⟨hrest, rfl, rfl⟩
  next => cases h
  next found rest hrest =>
    injection h with h h'
    subst h h'
    exact .inl ⟨⟨[found], hrest, rfl⟩, rfl⟩

/-- A token that is not the end of the input was taken from the stream. -/
theorem next_passes {state state' : State} {token : Token} (h : next state = .ok token state')
    (htoken : token.terminal ≠ .endOfInput) : state.Passes [token.terminal] state' :=
  (next_ok h).resolve_right fun hend => htoken hend.2.2

theorem peek_ok {state state' : State} {token : Token} (h : peek state = .ok token state') :
    state' = state ∧
      ∀ {token' state''}, next state = .ok token' state'' → token' = token := by
  unfold peek at h
  unfold next
  split at h
  next hrest =>
    injection h with h h'
    subst h h'
    simp_all
  next => cases h
  next found rest hrest =>
    injection h with h h'
    subst h h'
    simp_all

theorem mark_ok {state state' : State} {token : Token} {symbol : String}
    (h : mark symbol state = .ok token state') : state.Passes [.mark symbol] state' := by
  obtain ⟨found, middle, hnext, h⟩ := bind_eq_ok.1 h
  split at h
  next hmark =>
    obtain ⟨rfl, rfl⟩ := pure_eq_ok.1 h
    rw [Token.isMark_iff] at hmark
    rw [← hmark]
    exact next_passes hnext (by simp [hmark])
  next => exact absurd h throw_ne_ok

theorem identifier_ok {state state' : State} {token : Token} {expected : Expected}
    (h : identifier expected state = .ok token state') :
    state.Passes [.identifier token.text] state' := by
  obtain ⟨found, middle, hnext, h⟩ := bind_eq_ok.1 h
  split at h
  next hkind =>
    obtain ⟨rfl, rfl⟩ := pure_eq_ok.1 h
    obtain ⟨text, htext⟩ := Token.kind_eq_identifier_iff.1 hkind
    rw [Token.text_of_terminal_identifier htext, ← htext]
    exact next_passes hnext (by simp [htext])
  next => exact absurd h throw_ne_ok

theorem declarableType_ok {state state' : State} {token : Token} {type : TypeTag}
    (h : declarableType token state = .ok type state') :
    state' = state ∧ type.isDeclarable = true ∧ token.text = type.name := by
  unfold declarableType at h
  cases hfound : TypeTag.ofName? token.text <;> simp only [hfound] at h
  case none => exact absurd h throw_ne_ok
  case some found =>
      split at h
      next hdeclarable =>
        obtain ⟨rfl, rfl⟩ := pure_eq_ok.1 h
        exact ⟨rfl, hdeclarable, TypeTag.eq_name_of_ofName? hfound⟩
      next => exact absurd h throw_ne_ok

theorem typedName_ok {state state' : State} {expected : Expected} {name : Token} {type : TypeTag}
    (h : typedName expected state = .ok (name, type) state') :
    state.Passes [.identifier name.text, .identifier type.name] state' ∧
      type.isDeclarable = true := by
  obtain ⟨found, middle, hname, h⟩ := bind_eq_ok.1 h
  obtain ⟨word, middle', hword, h⟩ := bind_eq_ok.1 h
  obtain ⟨tag, last, htag, h⟩ := bind_eq_ok.1 h
  obtain ⟨hresult, rfl⟩ := pure_eq_ok.1 h
  obtain ⟨rfl, rfl⟩ := Prod.mk.inj hresult
  obtain ⟨rfl, hdeclarable, htext⟩ := declarableType_ok htag
  rw [← htext]
  exact ⟨(identifier_ok hname).cons (identifier_ok hword), hdeclarable⟩

theorem resolve_ok {state : State} (name : String) :
    resolve name state = .ok (place state.locals name) state := by
  unfold resolve place
  cases state.locals.bind (·.find? name) <;> rfl

/-! ## Expressions -/

theorem term_ok {state state' : State} {token : Token} {tree : Expr}
    (h : term token state = .ok tree state') :
    ∃ derivation : Term, token.terminal = derivation.terminal ∧
      tree = derivation.tree state.locals ∧ state' = state := by
  unfold term at h
  cases hkind : token.kind <;> simp only [hkind] at h
  case number =>
    cases hvalue : numberValue? token.text <;> simp only [hvalue] at h
    case none => exact absurd h throw_ne_ok
    case some value =>
      obtain ⟨rfl, rfl⟩ := pure_eq_ok.1 h
      exact ⟨.number token.text value hvalue, by simp [Token.terminal, hkind, Term.terminal],
        rfl, rfl⟩
  case string =>
    obtain ⟨rfl, rfl⟩ := pure_eq_ok.1 h
    exact ⟨.string token.text, by simp [Token.terminal, hkind, Term.terminal], rfl, rfl⟩
  case identifier =>
    rw [map_eq_pure_bind, bind_of_ok (resolve_ok token.text)] at h
    obtain ⟨rfl, rfl⟩ := pure_eq_ok.1 h
    exact ⟨.identifier token.text, by simp [Token.terminal, hkind, Term.terminal], rfl, rfl⟩
  all_goals exact absurd h throw_ne_ok

/-- A reader of arguments is sound on streams of at most `bound` items. -/
def ReadsExpression (bound budget : Nat) (reader : Parser Expr) : Prop :=
  ∀ ⦃state state' : State⦄ ⦃tree : Expr⦄, reader state = .ok tree state' →
    state.rest.length ≤ bound → ∃ derivation : Expression,
      state.Passes derivation.word state' ∧ derivation.depth ≤ budget ∧
        tree = derivation.tree state.locals

section Arguments

variable {bound budget : Nat} {argument : Parser Expr}
  (hargument : ReadsExpression bound budget argument)
include hargument

theorem arguments_ok {rounds : Nat} {state state' : State} {trees : List Expr}
    (h : arguments argument rounds state = .ok trees state')
    (hrounds : state.rest.length ≤ rounds) (hbound : state.rest.length ≤ bound) :
    ∃ derivations : List Expression, derivations ≠ [] ∧
      state.Passes (argumentWord derivations ++ [.mark ")"]) state' ∧
      argumentDepth derivations ≤ budget ∧ trees = argumentTrees state.locals derivations := by
  induction rounds generalizing state trees with
  | zero =>
      -- No item is left, but an argument takes one.
      obtain ⟨tree, middle, hfirst, -⟩ := bind_eq_ok.1 h
      obtain ⟨first, hpasses, -⟩ := hargument hfirst hbound
      obtain ⟨term, tail, hword⟩ := first.word_eq_cons
      have hlength := hpasses.takes.length
      simp only [hword, List.length_cons] at hlength
      omega
  | succ rounds ih =>
      obtain ⟨tree, middle, hfirst, h⟩ := bind_eq_ok.1 h
      obtain ⟨first, hpasses, hdepth, rfl⟩ := hargument hfirst hbound
      obtain ⟨token, after, hnext, h⟩ := bind_eq_ok.1 h
      split at h
      next hmark =>
        rw [Token.isMark_iff] at hmark
        obtain ⟨rfl, rfl⟩ := pure_eq_ok.1 h
        have hlast := next_passes hnext (by simp [hmark])
        rw [hmark] at hlast
        refine ⟨[first], by simp, ?_, by simpa [argumentDepth] using hdepth, rfl⟩
        simpa only [argumentWord] using hpasses.trans hlast
      next =>
        split at h
        next hmark =>
          rw [Token.isMark_iff] at hmark
          obtain ⟨rest, last, hrest, h⟩ := bind_eq_ok.1 h
          obtain ⟨rfl, rfl⟩ := pure_eq_ok.1 h
          have hcomma := next_passes hnext (by simp [hmark])
          rw [hmark] at hcomma
          have hmiddle := hpasses.trans hcomma
          have hlength := hmiddle.takes.length
          simp only [List.length_append, List.length_singleton] at hlength
          obtain ⟨others, hothers, hothersPasses, hothersDepth, rfl⟩ :=
            ih hrest (by omega) (by omega)
          refine ⟨first :: others, by simp, ?_, ?_, ?_⟩
          · obtain ⟨next, tail, rfl⟩ := List.exists_cons_of_ne_nil hothers
            simpa [argumentWord] using hmiddle.trans hothersPasses
          · simp only [argumentDepth]
            omega
          · rw [argumentTrees, hmiddle.locals]
        next => exact absurd h throw_ne_ok

theorem callArguments_ok {state state' : State} {trees : List Expr}
    (h : callArguments argument bound state = .ok trees state')
    (hbound : state.rest.length ≤ bound) :
    ∃ derivations : List Expression,
      state.Passes (argumentWord derivations ++ [.mark ")"]) state' ∧
      argumentDepth derivations ≤ budget ∧ trees = argumentTrees state.locals derivations := by
  obtain ⟨token, middle, hpeek, hif⟩ := bind_eq_ok.1 h
  obtain ⟨rfl, hsame⟩ := peek_ok hpeek
  split at hif
  next hmark =>
    rw [Token.isMark_iff] at hmark
    obtain ⟨token', after, hnext, hdone⟩ := bind_eq_ok.1 hif
    obtain ⟨rfl, rfl⟩ := pure_eq_ok.1 hdone
    obtain rfl := hsame hnext
    have hpasses := next_passes hnext (by simp [hmark])
    rw [hmark] at hpasses
    exact ⟨[], hpasses, Nat.zero_le _, rfl⟩
  next =>
    obtain ⟨derivations, -, hrest⟩ := arguments_ok hargument hif hbound hbound
    exact ⟨derivations, hrest⟩

theorem calls_ok {rounds : Nat} {callee tree : Expr} {state state' : State}
    (h : calls argument bound rounds callee state = .ok tree state')
    (hbound : state.rest.length ≤ bound) :
    ∃ derivations : List (List Expression), state.Passes (callWord derivations) state' ∧
      callDepth derivations ≤ budget ∧ tree = callTree state.locals callee derivations := by
  induction rounds generalizing state callee with
  | zero =>
      obtain ⟨rfl, rfl⟩ := pure_eq_ok.1 h
      exact ⟨[], .refl _, Nat.zero_le _, rfl⟩
  | succ rounds ih =>
      obtain ⟨token, middle, hpeek, hif⟩ := bind_eq_ok.1 h
      obtain ⟨rfl, hsame⟩ := peek_ok hpeek
      split at hif
      next hmark =>
        rw [Token.isMark_iff] at hmark
        obtain ⟨token', inside, hnext, hcall⟩ := bind_eq_ok.1 hif
        obtain ⟨given, after, hgiven, htail⟩ := bind_eq_ok.1 hcall
        obtain rfl := hsame hnext
        have hopen := next_passes hnext (by simp [hmark])
        rw [hmark] at hopen
        have hlength := hopen.takes.length
        obtain ⟨arguments, harguments, hdepth, rfl⟩ :=
          callArguments_ok hargument hgiven (by omega)
        have hfirst := hopen.trans harguments
        have hlength' := hfirst.takes.length
        obtain ⟨rest, hrest, hrestDepth, rfl⟩ := ih htail (by omega)
        refine ⟨arguments :: rest, ?_, ?_, ?_⟩
        · simpa [callWord] using hfirst.trans hrest
        · simp only [callDepth]
          omega
        · rw [callTree, hfirst.locals, hopen.locals]
      next =>
        obtain ⟨rfl, rfl⟩ := pure_eq_ok.1 hif
        exact ⟨[], .refl _, Nat.zero_le _, rfl⟩

theorem callable_ok {token : Token} {state state' : State} {tree : Expr}
    (h : callable argument bound token state = .ok tree state')
    (hbound : state.rest.length ≤ bound) :
    ∃ (term : Term) (derivations : List (List Expression)), token.terminal = term.terminal ∧
      state.Passes (callWord derivations) state' ∧ callDepth derivations ≤ budget ∧
      tree = callTree state.locals (term.tree state.locals) derivations := by
  obtain ⟨callee, middle, hterm, h⟩ := bind_eq_ok.1 h
  obtain ⟨term, hterminal, rfl, rfl⟩ := term_ok hterm
  obtain ⟨derivations, hrest⟩ := calls_ok hargument h hbound
  exact ⟨term, derivations, hterminal, hrest⟩

end Arguments

/-- An expression that is read has a derivation, no deeper than the budget. -/
theorem expression_ok (bound budget : Nat) :
    ReadsExpression bound budget (expression bound budget) := by
  induction budget with
  | zero =>
      intro state state' tree h hbound
      obtain ⟨token, middle, -, h⟩ := bind_eq_ok.1 h
      exact absurd h throw_ne_ok
  | succ budget ih =>
      intro state state' tree h hbound
      obtain ⟨first, middle, hnext, h⟩ := bind_eq_ok.1 h
      obtain ⟨left, after, hleft, h⟩ := bind_eq_ok.1 h
      obtain ⟨token, after', hpeek, hif⟩ := bind_eq_ok.1 h
      obtain ⟨rfl, hsame⟩ := peek_ok hpeek
      have hmiddle : middle.rest.length ≤ bound := by
        rcases next_ok hnext with hpasses | ⟨-, rfl, -⟩
        · have hlength := hpasses.takes.length
          omega
        · exact hbound
      obtain ⟨term, calls, hterminal, hcalls, hdepth, rfl⟩ := callable_ok ih hleft hmiddle
      have hterm := next_passes hnext (by cases term <;> simp [hterminal, Term.terminal])
      rw [hterminal] at hterm
      have hcallable := hterm.cons hcalls
      split at hif
      next hkind =>
        obtain ⟨symbol, hsymbol⟩ := Token.kind_eq_operator_iff.1 hkind
        have htext := Token.text_of_terminal_operator hsymbol
        obtain ⟨token', inside, hnext', h⟩ := bind_eq_ok.1 hif
        obtain rfl := hsame hnext'
        have hoperator := next_passes hnext' (by simp [hsymbol])
        cases hfound : Operator.ofSymbol? token'.text <;> simp only [hfound] at h
        case none => exact absurd h throw_ne_ok
        case some operator =>
          obtain ⟨right, last, hright, h⟩ := bind_eq_ok.1 h
          obtain ⟨rfl, rfl⟩ := pure_eq_ok.1 h
          rw [hsymbol, ← htext, Operator.eq_symbol_of_ofSymbol? hfound] at hoperator
          have hleftPart := hcallable.trans hoperator
          have hlength := hleftPart.takes.length
          obtain ⟨derivation, hpasses, hrightDepth, rfl⟩ := ih hright (by omega)
          refine ⟨.operation term calls operator derivation, ?_, ?_, ?_⟩
          · simpa [Expression.word] using hleftPart.trans hpasses
          · simp only [Expression.depth]
            omega
          · rw [Expression.tree, hterm.locals, hleftPart.locals]
      next =>
        obtain ⟨rfl, rfl⟩ := pure_eq_ok.1 hif
        refine ⟨.plain term calls, ?_, ?_, ?_⟩
        · simpa only [Expression.word] using hcallable
        · simp only [Expression.depth]
          omega
        · rw [Expression.tree, hterm.locals]

/-! ## Statements -/

/-- The parser took statements and declared their locals. -/
structure State.Reads (before : State) (block : List Statement) (after : State) : Prop where
  takes : before.Takes (blockWord block) after
  declares : BlockDeclares before.locals block
  locals : after.locals = blockLocalsAfter before.locals block

/-- A reader of the rest of a statement is sound on streams of at most `bound` items. -/
def ReadsStatement (bound budget : Nat) (reader : Nat → Token → Parser Stmt) : Prop :=
  ∀ ⦃start : Nat⦄ ⦃token : Token⦄ ⦃state state' : State⦄ ⦃tree : Stmt⦄,
    reader start token state = .ok tree state' → state.rest.length ≤ bound →
    ∃ (derivation : Statement) (word : List Terminal),
      derivation.word = token.terminal :: word ∧ state.Takes word state' ∧
      derivation.Declares state.locals ∧
      state'.locals = derivation.localsAfter state.locals ∧
      derivation.depth ≤ budget ∧ tree = derivation.tree state.locals

/-- A reader of blocks in braces is sound on streams of at most `bound` items. -/
def ReadsBlock (bound budget : Nat) (reader : Nat → Parser Block) : Prop :=
  ∀ ⦃start : Nat⦄ ⦃state state' : State⦄ ⦃tree : Block⦄,
    reader start state = .ok tree state' → state.rest.length ≤ bound →
    ∃ derivation : List Statement,
      state.Takes (.mark "\x7b" :: (blockWord derivation ++ [.mark "\x7d"])) state' ∧
      BlockDeclares state.locals derivation ∧
      state'.locals = blockLocalsAfter state.locals derivation ∧
      blockDepth derivation + 1 ≤ budget ∧ tree = blockTree state.locals derivation

/-- The symbol that ends a sequence of statements. -/
def Closing.terminal : Closing → Terminal
  | .endOfInput => .endOfInput
  | .brace => .mark "\x7d"

theorem closes_ok {closing : Closing} {token : Token} {state state' : State} {closed : Bool}
    (h : closing.closes token state = .ok closed state') :
    state' = state ∧ (closed = true ↔ token.terminal = closing.terminal) ∧
      (closed = false → token.terminal ≠ .endOfInput) := by
  cases closing <;> simp only [Closing.closes, Token.isMark_iff, Token.kind_eq_eof_iff] at h <;>
    split at h
  case endOfInput.isTrue hend =>
    obtain ⟨rfl, rfl⟩ := pure_eq_ok.1 h
    simp [Closing.terminal, hend]
  case endOfInput.isFalse hend =>
    split at h
    next => exact absurd h throw_ne_ok
    next =>
      obtain ⟨rfl, rfl⟩ := pure_eq_ok.1 h
      simp [Closing.terminal, hend]
  case brace.isTrue hbrace =>
    obtain ⟨rfl, rfl⟩ := pure_eq_ok.1 h
    simp [Closing.terminal, hbrace]
  case brace.isFalse hbrace =>
    split at h
    next => exact absurd h throw_ne_ok
    next hend =>
      obtain ⟨rfl, rfl⟩ := pure_eq_ok.1 h
      simp [Closing.terminal, hbrace, hend]

theorem settle_ok {index target : Nat} {state state' : State}
    (h : settle index target state = .ok () state') : state.Passes [] state' := by
  injection h with _ h
  subst h
  exact ⟨⟨[], rfl, rfl⟩, rfl⟩

theorem localDeclaration_ok {line : Nat} {state state' : State} {tree : Stmt}
    (h : localDeclaration line state = .ok tree state') :
    ∃ (name : String) (type : TypeTag), type.isDeclarable = true ∧
      state.Takes [.identifier name, .identifier type.name] state' ∧
      (∃ table, state.locals = some table ∧ table.slot? name = none) ∧
      state'.locals = declareIn state.locals name type ∧ tree = .declare name type := by
  obtain ⟨⟨name, type⟩, middle, hnamed, h⟩ := bind_eq_ok.1 h
  obtain ⟨hpasses, hdeclarable⟩ := typedName_ok hnamed
  obtain ⟨same, middle', hget, h⟩ := bind_eq_ok.1 h
  injection hget with hget hget'
  subst hget hget'
  rw [← hpasses.locals]
  cases hlocals : middle.locals <;> simp only [hlocals] at h
  case none => exact absurd h throw_ne_ok
  case some table =>
    unfold SlotTable.declare at h
    cases hslot : table.slot? name.text <;> simp only [hslot] at h
    case some => exact absurd h throw_ne_ok
    case none =>
      injection h with h h'
      subst h h'
      exact ⟨name.text, type, hdeclarable, hpasses.takes, ⟨table, rfl, hslot⟩, rfl, rfl⟩

/-- What a branch and a loop have in common: a test, a block, and a jump that is settled. -/
theorem guarded_ok {bound budget : Nat} {block : Nat → Parser Block}
    (hblock : ReadsBlock bound budget block) {place : Expr → Nat} {index : Expr → Nat}
    {target : Expr → Block → Nat} {finish : Expr → Block → Stmt} {state state' : State}
    {tree : Stmt} (hbound : state.rest.length ≤ bound)
    (h : (do
      let test ← expression bound budget
      let body ← block (place test)
      settle (index test) (target test body)
      return finish test body : Parser Stmt) state = .ok tree state') :
    ∃ (test : Expression) (body : List Statement),
      state.Takes (test.word ++ .mark "\x7b" :: (blockWord body ++ [.mark "\x7d"])) state' ∧
      BlockDeclares state.locals body ∧
      state'.locals = blockLocalsAfter state.locals body ∧
      max test.depth (blockDepth body + 1) ≤ budget ∧
      tree = finish (test.tree state.locals) (blockTree state.locals body) := by
  obtain ⟨_, middle, htest, h⟩ := bind_eq_ok.1 h
  obtain ⟨_, after, hbody, h⟩ := bind_eq_ok.1 h
  obtain ⟨_, settled, hsettle, h⟩ := bind_eq_ok.1 h
  obtain ⟨rfl, rfl⟩ := pure_eq_ok.1 h
  obtain ⟨test, hpasses, htestDepth, rfl⟩ := expression_ok bound budget htest hbound
  have hlength := hpasses.takes.length
  obtain ⟨body, htakes, hdeclares, hlocals, hbodyDepth, rfl⟩ := hblock hbody (by omega)
  have hsettled := settle_ok hsettle
  rw [hpasses.locals] at hdeclares hlocals ⊢
  refine ⟨test, body, ?_, hdeclares, hsettled.locals.trans hlocals, by omega, rfl⟩
  simpa using (hpasses.takes.trans htakes).trans hsettled.takes

/-- A term with the calls after it, as it opens a statement. -/
theorem evaluate_ok {bound budget : Nat} {token : Token} {state state' : State} {tree : Expr}
    (hfree : ∀ word ∈ keywords, token.terminal ≠ .identifier word)
    (hbound : state.rest.length ≤ bound)
    (h : callable (expression bound budget) bound token state = .ok tree state') :
    ∃ (derivation : Statement) (word : List Terminal),
      derivation.word = token.terminal :: word ∧ state.Takes word state' ∧
      derivation.Declares state.locals ∧
      state'.locals = derivation.localsAfter state.locals ∧
      derivation.depth ≤ budget ∧ .evaluate tree = derivation.tree state.locals := by
  obtain ⟨term, calls, hterminal, hpasses, hdepth, rfl⟩ :=
    callable_ok (expression_ok bound budget) h hbound
  have hterm : ∀ word ∈ keywords, term ≠ .identifier word := by
    rintro word hword rfl
    exact hfree word hword hterminal
  exact ⟨.evaluate term hterm calls, _, by rw [hterminal, Statement.word], hpasses.takes, trivial,
    hpasses.locals, hdepth, rfl⟩

/-- A statement that is read has a derivation. -/
theorem statement_ok {bound budget : Nat} {block : Nat → Parser Block}
    (hblock : ReadsBlock bound budget block) :
    ReadsStatement bound budget (statement bound budget block) := by
  intro start token state state' tree h hbound
  unfold statement at h
  simp only [Token.isMark_iff, Token.isWord_iff] at h
  split at h
  next hmark =>
    obtain ⟨rfl, rfl⟩ := pure_eq_ok.1 h
    exact ⟨.empty, [], by rw [hmark, Statement.word], .refl _, trivial, rfl, Nat.zero_le _, rfl⟩
  split at h
  next _ hword =>
    obtain ⟨rfl, rfl⟩ := pure_eq_ok.1 h
    exact ⟨.ret, [], by rw [hword, Statement.word], .refl _, trivial, rfl, Nat.zero_le _, rfl⟩
  split at h
  next hword =>
    obtain ⟨test, body, htakes, hdeclares, hlocals, hdepth, rfl⟩ := guarded_ok hblock hbound h
    exact ⟨.branch test body, _, by rw [hword, Statement.word], htakes, hdeclares, hlocals,
      hdepth, rfl⟩
  split at h
  next hword =>
    obtain ⟨test, body, htakes, hdeclares, hlocals, hdepth, rfl⟩ := guarded_ok hblock hbound h
    exact ⟨.loop test body, _, by rw [hword, Statement.word], htakes, hdeclares, hlocals,
      hdepth, rfl⟩
  split at h
  next hword =>
    obtain ⟨name, type, hdeclarable, htakes, hnew, hlocals, rfl⟩ := localDeclaration_ok h
    exact ⟨.declare name type hdeclarable, _, by rw [hword, Statement.word], htakes, hnew, hlocals,
      Nat.zero_le _, rfl⟩
  next hreturn hif hwhile hlocal =>
    have hfree : ∀ word ∈ keywords, token.terminal ≠ .identifier word := by
      simp [keywords, hreturn, hif, hwhile, hlocal]
    split at h
    next hkind =>
      obtain ⟨name, hname⟩ := Token.kind_eq_identifier_iff.1 hkind
      obtain ⟨sign, middle, hpeek, hassign⟩ := bind_eq_ok.1 h
      obtain ⟨rfl, hsame⟩ := peek_ok hpeek
      split at hassign
      next hsign =>
        rw [Token.kind_eq_assign_iff] at hsign
        obtain ⟨sign', after, hnext, h⟩ := bind_eq_ok.1 hassign
        obtain rfl := hsame hnext
        have hpasses := next_passes hnext (by simp [hsign])
        rw [hsign] at hpasses
        have hlength := hpasses.takes.length
        obtain ⟨value, last, hvalue, h⟩ := bind_eq_ok.1 h
        rw [bind_of_ok (resolve_ok token.text)] at h
        obtain ⟨rfl, rfl⟩ := pure_eq_ok.1 h
        obtain ⟨derivation, hvaluePasses, hdepth, rfl⟩ :=
          expression_ok bound budget hvalue (by omega)
        have hall := hpasses.trans hvaluePasses
        refine ⟨.assign name (fun hmem => hfree name hmem hname) derivation, _,
          by rw [hname, Statement.word]; rfl, hall.takes, trivial, hall.locals, hdepth, ?_⟩
        rw [Statement.tree, hall.locals, hpasses.locals, Token.text_of_terminal_identifier hname]
      next =>
        obtain ⟨term, last, hterm, h⟩ := bind_eq_ok.1 hassign
        obtain ⟨rfl, rfl⟩ := pure_eq_ok.1 h
        exact evaluate_ok hfree hbound hterm
    next =>
      obtain ⟨term, last, hterm, h⟩ := bind_eq_ok.1 h
      obtain ⟨rfl, rfl⟩ := pure_eq_ok.1 h
      exact evaluate_ok hfree hbound hterm

/-! ## Blocks -/

/-- Statements that are read have a derivation, and the symbol after them closes them. -/
theorem statements_ok {bound budget : Nat} {statement : Nat → Token → Parser Stmt}
    (hstatement : ReadsStatement bound budget statement) {closing : Closing} {rounds start : Nat}
    {state state' : State} {tree : Block}
    (h : statements statement closing rounds start state = .ok tree state')
    (hbound : state.rest.length ≤ bound) :
    ∃ (derivation : List Statement) (middle : State) (token : Token),
      state.Reads derivation middle ∧ next middle = .ok token state' ∧
      token.terminal = closing.terminal ∧ blockDepth derivation ≤ budget ∧
      tree = blockTree state.locals derivation := by
  induction rounds generalizing start state tree with
  | zero =>
      obtain ⟨token, middle, hnext, h⟩ := bind_eq_ok.1 h
      obtain ⟨closed, middle', hcloses, hif⟩ := bind_eq_ok.1 h
      obtain ⟨rfl, hclosed, -⟩ := closes_ok hcloses
      split at hif
      next htrue =>
        obtain ⟨rfl, rfl⟩ := pure_eq_ok.1 hif
        exact ⟨[], state, token, ⟨.refl _, trivial, rfl⟩, hnext, hclosed.1 htrue, Nat.zero_le _,
          rfl⟩
      next => exact absurd hif throw_ne_ok
  | succ rounds ih =>
      obtain ⟨token, middle, hnext, h⟩ := bind_eq_ok.1 h
      obtain ⟨closed, middle', hcloses, hif⟩ := bind_eq_ok.1 h
      obtain ⟨rfl, hclosed, hopen⟩ := closes_ok hcloses
      split at hif
      next htrue =>
        obtain ⟨rfl, rfl⟩ := pure_eq_ok.1 hif
        exact ⟨[], state, token, ⟨.refl _, trivial, rfl⟩, hnext, hclosed.1 htrue, Nat.zero_le _,
          rfl⟩
      next hfalse =>
        obtain ⟨first, after, hfirst, h⟩ := bind_eq_ok.1 hif
        obtain ⟨rest, last, hrest, h⟩ := bind_eq_ok.1 h
        obtain ⟨rfl, rfl⟩ := pure_eq_ok.1 h
        have hpasses := next_passes hnext (hopen (Bool.eq_false_iff.2 hfalse))
        have hlength := hpasses.takes.length
        obtain ⟨derivation, word, hword, htakes, hdeclares, hlocals, hdepth, rfl⟩ :=
          hstatement hfirst (by omega)
        rw [hpasses.locals] at hdeclares hlocals ⊢
        have hlength' := htakes.length
        obtain ⟨others, middle', token', hreads, hnext', htoken, hothersDepth, rfl⟩ :=
          ih hrest (by omega)
        refine ⟨derivation :: others, middle', token', ⟨?_, ?_, ?_⟩, hnext', htoken, ?_, ?_⟩
        · rw [blockWord, hword]
          exact (hpasses.takes.trans htakes).trans hreads.takes
        · exact ⟨hdeclares, hlocals ▸ hreads.declares⟩
        · rw [hreads.locals, hlocals, blockLocalsAfter]
        · simp only [blockDepth]
          omega
        · rw [blockTree, hlocals]

/-- A block in braces that is read has a derivation. -/
theorem block_ok (bound budget : Nat) : ReadsBlock bound budget (block bound budget) := by
  induction budget with
  | zero =>
      intro start state state' tree h hbound
      obtain ⟨token, middle, -, h⟩ := bind_eq_ok.1 h
      exact absurd h throw_ne_ok
  | succ budget ih =>
      intro start state state' tree h hbound
      obtain ⟨token, middle, hmark, h⟩ := bind_eq_ok.1 h
      have hopen := mark_ok hmark
      have hlength := hopen.takes.length
      obtain ⟨derivation, last, token', hreads, hnext, htoken, hdepth, rfl⟩ :=
        statements_ok (statement_ok ih) h (by omega)
      have hclose := next_passes hnext (by simp [htoken, Closing.terminal])
      rw [htoken] at hclose
      refine ⟨derivation, ?_, ?_, ?_, by omega, ?_⟩
      · exact hopen.takes.trans (hreads.takes.trans hclose.takes)
      · exact hopen.locals ▸ hreads.declares
      · rw [hclose.locals, hreads.locals, hopen.locals]
      · rw [hopen.locals]

/-- Statements up to the end of the input that are read have a derivation. -/
theorem wholeBlock_ok {bound start : Nat} {state state' : State} {tree : Block}
    (h : wholeBlock bound start state = .ok tree state') (hbound : state.rest.length ≤ bound) :
    ∃ (derivation : List Statement) (middle : State) (token : Token),
      state.Reads derivation middle ∧ next middle = .ok token state' ∧
      token.terminal = .endOfInput ∧ blockDepth derivation ≤ nestingLimit ∧
      tree = blockTree state.locals derivation :=
  statements_ok (statement_ok (block_ok bound nestingLimit)) h hbound

end StackScript.Parser
