import StackScript.Proofs.ParserSoundness

/-!
# What has a derivation is accepted

On tokens that spell a derivation, and before a symbol that does not go on with it, a reader takes
exactly these tokens and gives the tree of the derivation.
-/

namespace StackScript.Parser

open Grammar

/-! ## Streams -/

theorem Spells.append {items rest : List Item} {word word' : List Terminal}
    (h : Spells items (word ++ word') rest) :
    ∃ middle, Spells items word middle ∧ Spells middle word' rest := by
  obtain ⟨tokens, rfl, hword⟩ := h
  obtain ⟨left, right, rfl, hleft, hright⟩ := List.map_eq_append_iff.1 hword
  exact ⟨right.map .ok ++ rest, ⟨left, by simp, hleft⟩, ⟨right, rfl, hright⟩⟩

theorem Spells.cons {items rest : List Item} {symbol : Terminal} {word : List Terminal}
    (h : Spells items (symbol :: word) rest) :
    ∃ token middle, items = .ok token :: middle ∧ token.terminal = symbol ∧
      Spells middle word rest := by
  obtain ⟨tokens, rfl, hword⟩ := h
  obtain ⟨token, tail, rfl, hsymbol, htail⟩ := List.map_eq_cons_iff.1 hword
  exact ⟨token, tail.map .ok ++ rest, rfl, hsymbol, ⟨tail, rfl, htail⟩⟩

theorem Spells.nil {items rest : List Item} (h : Spells items [] rest) : items = rest := by
  obtain ⟨tokens, rfl, hword⟩ := h
  rw [List.map_eq_nil_iff.1 hword, List.map_nil, List.nil_append]

theorem Spells.length {items rest : List Item} {word : List Terminal}
    (h : Spells items word rest) : items.length = word.length + rest.length := by
  obtain ⟨tokens, rfl, rfl⟩ := h
  simp

/-- The symbol that a stream starts with. After its last item there is the end of the input. -/
def lookahead : List Item → Option Terminal
  | [] => some .endOfInput
  | .ok token :: _ => some token.terminal
  | .error _ :: _ => none

theorem Spells.lookahead {items rest : List Item} {symbol : Terminal} {word : List Terminal}
    (h : Spells items (symbol :: word) rest) : lookahead items = some symbol := by
  obtain ⟨token, middle, rfl, rfl, -⟩ := h.cons
  rfl

/-- No expression goes on with a stream, and it does not start with an error. -/
def StopsExpression (items : List Item) : Prop :=
  ∃ symbol, lookahead items = some symbol ∧ EndsExpression [symbol]

/-- No statement goes on with a stream, and it does not start with an error. -/
def StopsStatement (items : List Item) : Prop :=
  ∃ symbol, lookahead items = some symbol ∧ EndsStatement [symbol]

theorem StopsStatement.stopsExpression {items : List Item} (h : StopsStatement items) :
    StopsExpression items := by
  obtain ⟨symbol, hsymbol, hends⟩ := h
  exact ⟨symbol, hsymbol, hends.1⟩

/-! ## Readers -/

variable {α β : Type}

/-- The reader succeeds with a result, leaves the items `rest` and has then declared `locals`. -/
def Yields (reader : Parser α) (state : State) (result : α) (rest : List Item)
    (locals : Option SlotTable) : Prop :=
  ∃ state', reader state = .ok result state' ∧ state'.rest = rest ∧ state'.locals = locals

theorem Yields.bind {first : Parser α} {second : α → Parser β} {state : State} {value : α}
    {result : β} {middle rest : List Item} {locals locals' : Option SlotTable}
    (h : Yields first state value middle locals)
    (h' : ∀ state', state'.rest = middle → state'.locals = locals →
      Yields (second value) state' result rest locals') :
    Yields (first >>= second) state result rest locals' := by
  obtain ⟨state', hfirst, hrest, hlocals⟩ := h
  obtain ⟨state'', hsecond, hdone⟩ := h' state' hrest hlocals
  exact ⟨state'', by rw [bind_of_ok hfirst, hsecond], hdone⟩

theorem Yields.pure {state : State} {rest : List Item} {locals : Option SlotTable} (result : α)
    (hrest : state.rest = rest) (hlocals : state.locals = locals) :
    Yields (Pure.pure result) state result rest locals :=
  ⟨state, rfl, hrest, hlocals⟩

theorem next_yields {state : State} {token : Token} {rest : List Item}
    (h : state.rest = .ok token :: rest) : Yields next state token rest state.locals := by
  unfold Yields next
  rw [h]
  exact ⟨_, rfl, rfl, rfl⟩

theorem peek_yields {state : State} {symbol : Terminal}
    (h : lookahead state.rest = some symbol) :
    ∃ token, token.terminal = symbol ∧ peek state = .ok token state := by
  unfold peek
  cases hrest : state.rest with
  | nil =>
      rw [hrest] at h
      exact ⟨.eof state.line, Option.some.inj h, rfl⟩
  | cons item rest =>
      cases item with
      | error error => simp [hrest, lookahead] at h
      | ok token =>
          rw [hrest] at h
          exact ⟨token, Option.some.inj h, rfl⟩

/-- Looking ahead decides which reader goes on. -/
theorem Yields.peek {second : Token → Parser β} {state : State} {symbol : Terminal} {result : β}
    {rest : List Item} {locals : Option SlotTable} (h : lookahead state.rest = some symbol)
    (h' : ∀ token, token.terminal = symbol → Yields (second token) state result rest locals) :
    Yields (Parser.peek >>= second) state result rest locals := by
  obtain ⟨token, hterminal, hpeek⟩ := peek_yields h
  obtain ⟨state', hsecond, hdone⟩ := h' token hterminal
  exact ⟨state', by rw [bind_of_ok hpeek, hsecond], hdone⟩

/-- Taking a token goes on with the stream after it. -/
theorem Yields.next {second : Token → Parser β} {state : State} {symbol : Terminal}
    {word : List Terminal} {result : β} {rest rest' : List Item} {locals : Option SlotTable}
    (h : Spells state.rest (symbol :: word) rest)
    (h' : ∀ token state', token.terminal = symbol → Spells state'.rest word rest →
      state'.locals = state.locals → state.rest.length = state'.rest.length + 1 →
      Yields (second token) state' result rest' locals) :
    Yields (Parser.next >>= second) state result rest' locals := by
  obtain ⟨token, middle, hrest, hterminal, hspells⟩ := h.cons
  refine (next_yields hrest).bind fun state' hmiddle hlocals => ?_
  refine h' token state' hterminal (hmiddle ▸ hspells) hlocals ?_
  rw [hrest, hmiddle, List.length_cons]

/-! ## Expressions -/

theorem term_yields {token : Token} {term : Term} {state : State} {locals : Option SlotTable}
    (h : token.terminal = term.terminal) (hlocals : state.locals = locals) :
    Yields (Parser.term token) state (term.tree locals) state.rest locals := by
  subst hlocals
  unfold Parser.term
  unfold Token.terminal at h
  cases term with
  | number text value fits =>
      cases hkind : token.kind <;> simp [hkind, Term.terminal] at h
      rw [h, fits]
      exact .pure _ rfl rfl
  | string text =>
      cases hkind : token.kind <;> simp [hkind, Term.terminal] at h
      rw [h]
      exact .pure _ rfl rfl
  | identifier name =>
      cases hkind : token.kind <;> simp [hkind, Term.terminal] at h
      refine ⟨state, ?_, rfl, rfl⟩
      change (Expr.variable <$> resolve token.text) state = _
      rw [map_eq_pure_bind, bind_of_ok (resolve_ok token.text), h]
      rfl

/-- A reader accepts every expression within a budget, on streams of at most `bound` items. -/
def AcceptsExpression (bound budget : Nat) (reader : Parser Expr) : Prop :=
  ∀ (derivation : Expression) ⦃state : State⦄ ⦃rest : List Item⦄ ⦃locals : Option SlotTable⦄,
    Spells state.rest derivation.word rest → StopsExpression rest → state.locals = locals →
    derivation.depth ≤ budget → state.rest.length ≤ bound →
    Yields reader state (derivation.tree locals) rest locals

theorem stopsExpression_of_spells_mark {items rest : List Item} {symbol : String}
    {word : List Terminal} (h : Spells items (.mark symbol :: word) rest)
    (hsymbol : symbol ≠ "(") : StopsExpression items :=
  ⟨_, h.lookahead, endsExpression_mark hsymbol _⟩

section Arguments

variable {bound budget : Nat} {argument : Parser Expr}
  (hargument : AcceptsExpression bound budget argument)
include hargument

theorem arguments_yields (derivations : List Expression) {rounds : Nat} {state : State}
    {rest : List Item} {locals : Option SlotTable} (hne : derivations ≠ [])
    (hspells : Spells state.rest (argumentWord derivations ++ [.mark ")"]) rest)
    (hlocals : state.locals = locals) (hdepth : argumentDepth derivations ≤ budget)
    (hrounds : state.rest.length ≤ rounds) (hbound : state.rest.length ≤ bound) :
    Yields (arguments argument rounds) state (argumentTrees locals derivations) rest locals := by
  induction derivations generalizing rounds state with
  | nil => exact absurd rfl hne
  | cons first others ih =>
      obtain ⟨rounds, rfl⟩ : ∃ n, rounds = n + 1 := by
        have hlength := hspells.length
        rw [List.length_append, List.length_singleton] at hlength
        exact ⟨rounds - 1, by omega⟩
      rw [argumentDepth] at hdepth
      cases others with
      | nil =>
          rw [argumentWord] at hspells
          obtain ⟨middle, hfirst, hclose⟩ := hspells.append
          have hstops := stopsExpression_of_spells_mark hclose (by decide)
          refine (hargument first hfirst hstops hlocals (by omega) hbound).bind ?_
          intro state' hrest' hlocals'
          refine Yields.next (hrest' ▸ hclose) fun token last hterminal hend hsame _ => ?_
          rw [if_pos (Token.isMark_iff.2 hterminal)]
          exact .pure _ hend.nil (hsame.trans hlocals')
      | cons second others =>
          rw [argumentWord, List.append_assoc, List.cons_append] at hspells
          obtain ⟨middle, hfirst, hcomma⟩ := hspells.append
          have hstops := stopsExpression_of_spells_mark hcomma (by decide)
          have hlength := hfirst.length
          refine (hargument first hfirst hstops hlocals (by omega) hbound).bind ?_
          intro state' hrest' hlocals'
          refine Yields.next (hrest' ▸ hcomma) fun token last hterminal htail hsame hsize => ?_
          rw [if_neg (by simp [Token.isMark_iff, hterminal]), if_pos (Token.isMark_iff.2 hterminal)]
          rw [hrest'] at hsize
          refine (ih (by simp) htail (hsame.trans hlocals') (by omega) (by omega)
            (by omega)).bind ?_
          intro final hrest hlocals
          exact .pure _ hrest hlocals

theorem callArguments_yields (derivations : List Expression) {state : State}
    {rest : List Item} {locals : Option SlotTable}
    (hspells : Spells state.rest (argumentWord derivations ++ [.mark ")"]) rest)
    (hlocals : state.locals = locals) (hdepth : argumentDepth derivations ≤ budget)
    (hbound : state.rest.length ≤ bound) :
    Yields (callArguments argument bound) state (argumentTrees locals derivations) rest
      locals := by
  cases derivations with
  | nil =>
      rw [argumentWord, List.nil_append] at hspells
      refine Yields.peek hspells.lookahead fun token hterminal => ?_
      rw [if_pos (Token.isMark_iff.2 hterminal)]
      refine Yields.next hspells fun _ state' _ hend hsame _ => ?_
      exact .pure _ hend.nil (hsame.trans hlocals)
  | cons first others =>
      obtain ⟨term, tail, hword⟩ := argumentWord_cons first others
      have hlookahead : lookahead state.rest = some term.terminal := by
        rw [hword, List.cons_append] at hspells
        exact hspells.lookahead
      refine Yields.peek hlookahead fun token hterminal => ?_
      rw [if_neg (by rw [Token.isMark_iff, hterminal]; exact term.terminal_ne_mark _)]
      exact arguments_yields hargument _ (by simp) hspells hlocals hdepth hbound hbound

theorem calls_yields (derivations : List (List Expression)) {rounds : Nat} {callee : Expr}
    {state : State} {rest : List Item} {locals : Option SlotTable}
    (hspells : Spells state.rest (callWord derivations) rest)
    (hstops : ∃ symbol, lookahead rest = some symbol ∧ EndsCalls [symbol])
    (hlocals : state.locals = locals) (hdepth : callDepth derivations ≤ budget)
    (hrounds : state.rest.length ≤ rounds) (hbound : state.rest.length ≤ bound) :
    Yields (calls argument bound rounds callee) state (callTree locals callee derivations) rest
      locals := by
  induction derivations generalizing rounds callee state with
  | nil =>
      cases rounds with
      | zero => exact .pure _ hspells.nil hlocals
      | succ rounds =>
          obtain ⟨symbol, hsymbol, hends⟩ := hstops
          refine Yields.peek (hspells.nil ▸ hsymbol) fun token hterminal => ?_
          rw [if_neg (by rw [Token.isMark_iff, hterminal]; rintro rfl; exact hends [] rfl)]
          exact .pure _ hspells.nil hlocals
  | cons first others ih =>
      rw [callWord] at hspells
      rw [callDepth] at hdepth
      obtain ⟨rounds, rfl⟩ : ∃ n, rounds = n + 1 := by
        have hlength := hspells.length
        rw [List.length_cons] at hlength
        exact ⟨rounds - 1, by omega⟩
      refine Yields.peek hspells.lookahead fun token hterminal => ?_
      rw [if_pos (Token.isMark_iff.2 hterminal)]
      refine Yields.next hspells fun _ inside _ htail hsame hsize => ?_
      rw [List.append_cons] at htail
      obtain ⟨middle, hgiven, hothers⟩ := htail.append
      have hlength := hgiven.length
      refine (callArguments_yields hargument first hgiven (hsame.trans hlocals) (by omega)
        (by omega)).bind ?_
      rintro after rfl hlocals'
      exact ih hothers hlocals' (by omega) (by omega) (by omega)

theorem callable_yields {term : Term} (derivations : List (List Expression)) {token : Token}
    {state : State} {rest : List Item} {locals : Option SlotTable}
    (hterminal : token.terminal = term.terminal)
    (hspells : Spells state.rest (callWord derivations) rest)
    (hstops : ∃ symbol, lookahead rest = some symbol ∧ EndsCalls [symbol])
    (hlocals : state.locals = locals) (hdepth : callDepth derivations ≤ budget)
    (hbound : state.rest.length ≤ bound) :
    Yields (callable argument bound token) state
      (callTree locals (term.tree locals) derivations) rest locals := by
  refine (term_yields hterminal hlocals).bind ?_
  intro state' hrest hlocals'
  rw [← hrest] at hspells hbound
  exact calls_yields hargument derivations hspells hstops hlocals' hdepth hbound hbound

end Arguments

/-- Every expression within the budget is accepted. -/
theorem expression_yields (bound budget : Nat) :
    AcceptsExpression bound budget (expression bound budget) := by
  induction budget with
  | zero =>
      intro derivation state rest locals _ _ _ hdepth
      cases derivation <;> simp [Expression.depth] at hdepth
  | succ budget ih =>
      intro derivation state rest locals hspells hstops hlocals hdepth hbound
      obtain ⟨symbol, hsymbol, hends⟩ := hstops
      cases derivation with
      | plain term calls =>
          rw [Expression.word] at hspells
          rw [Expression.depth] at hdepth
          refine Yields.next hspells fun token middle hterminal hcalls hsame hsize => ?_
          refine (callable_yields ih calls hterminal hcalls ⟨symbol, hsymbol, hends.1⟩
            (hsame.trans hlocals) (by omega) (by omega)).bind ?_
          rintro after rfl hlocals'
          refine Yields.peek hsymbol fun token hterminal => ?_
          rw [if_neg ?_]
          · exact .pure _ rfl hlocals'
          · rw [Token.kind_eq_operator_iff, hterminal]
            rintro ⟨text, rfl⟩
            exact hends.2 text [] rfl
      | operation term calls operator right =>
          rw [Expression.word] at hspells
          rw [Expression.depth] at hdepth
          refine Yields.next hspells fun token middle hterminal htail hsame hsize => ?_
          obtain ⟨_, hcalls, hright⟩ := htail.append
          have hlength := hcalls.length
          refine (callable_yields ih calls hterminal hcalls
            ⟨_, hright.lookahead, endsCalls_operator _ _⟩ (hsame.trans hlocals) (by omega)
            (by omega)).bind ?_
          rintro after rfl hlocals'
          refine Yields.peek hright.lookahead fun sign hsign => ?_
          rw [if_pos (Token.kind_eq_operator_iff.2 ⟨_, hsign⟩),
            Token.text_of_terminal_operator hsign, Operator.ofSymbol?_symbol]
          refine Yields.next hright fun _ last _ hright hsame' hsize' => ?_
          refine (ih right hright ⟨symbol, hsymbol, hends⟩ (hsame'.trans hlocals') (by omega)
            (by omega)).bind ?_
          intro final hrest hlocals
          exact .pure _ hrest hlocals

/-! ## Statements -/

theorem mark_yields {symbol : String} {word : List Terminal} {state : State} {rest : List Item}
    {second : Token → Parser β} {result : β} {rest' : List Item} {locals : Option SlotTable}
    (h : Spells state.rest (.mark symbol :: word) rest)
    (h' : ∀ token state', Spells state'.rest word rest → state'.locals = state.locals →
      state.rest.length = state'.rest.length + 1 →
        Yields (second token) state' result rest' locals) :
    Yields (mark symbol >>= second) state result rest' locals := by
  unfold mark
  rw [bind_assoc]
  refine Yields.next h fun token state' hterminal => ?_
  rw [if_pos (Token.isMark_iff.2 hterminal), pure_bind]
  exact h' token state'

theorem identifier_yields {expected : Expected} {text : String} {word : List Terminal}
    {state : State} {rest : List Item} {second : Token → Parser β} {result : β}
    {rest' : List Item} {locals : Option SlotTable}
    (h : Spells state.rest (.identifier text :: word) rest)
    (h' : ∀ token state', token.text = text → Spells state'.rest word rest →
      state'.locals = state.locals → Yields (second token) state' result rest' locals) :
    Yields (identifier expected >>= second) state result rest' locals := by
  unfold identifier
  rw [bind_assoc]
  refine Yields.next h fun token state' hterminal htail hsame _ => ?_
  rw [if_pos (Token.kind_eq_identifier_iff.2 ⟨_, hterminal⟩), pure_bind]
  exact h' token state' (Token.text_of_terminal_identifier hterminal) htail hsame

theorem localDeclaration_yields {line : Nat} {name : String} {type : TypeTag} {state : State}
    {rest : List Item} {table : SlotTable} (hdeclarable : type.isDeclarable = true)
    (hspells : Spells state.rest [.identifier name, .identifier type.name] rest)
    (hlocals : state.locals = some table) (hnew : table.slot? name = none) :
    Yields (localDeclaration line) state (.declare name type) rest
      (declareIn (some table) name type) := by
  unfold localDeclaration typedName
  simp only [bind_assoc]
  refine identifier_yields hspells fun first middle hfirst htail hsame => ?_
  refine identifier_yields htail fun second last hsecond hend hsame' => ?_
  simp only [declarableType, hsecond, TypeTag.ofName?_name, hdeclarable, if_true, pure_bind]
  refine ⟨{ last with locals := declareIn (some table) name type }, ?_, hend.nil, rfl⟩
  rw [bind_of_ok (show (get : Parser State) last = .ok last last from rfl), hsame', hsame, hlocals]
  simp only [SlotTable.declare, hfirst, hnew]
  rfl

/-- A reader accepts every statement within a budget, on streams of at most `bound` items. -/
def AcceptsStatement (bound budget : Nat) (reader : Nat → Token → Parser Stmt) : Prop :=
  ∀ (derivation : Statement) (start : Nat) ⦃word : List Terminal⦄ ⦃token : Token⦄ ⦃state : State⦄
    ⦃rest : List Item⦄ ⦃locals : Option SlotTable⦄,
    derivation.word = token.terminal :: word → Spells state.rest word rest →
    StopsStatement rest → state.locals = locals → derivation.Declares locals →
    derivation.depth ≤ budget → state.rest.length ≤ bound →
    Yields (reader start token) state (derivation.tree locals) rest
      (derivation.localsAfter locals)

/-- A reader accepts every block in braces within a budget. -/
def AcceptsBlock (bound budget : Nat) (reader : Nat → Parser Block) : Prop :=
  ∀ (derivation : List Statement) (start : Nat) ⦃state : State⦄ ⦃rest : List Item⦄
    ⦃locals : Option SlotTable⦄,
    Spells state.rest (.mark "\x7b" :: (blockWord derivation ++ [.mark "\x7d"])) rest →
    state.locals = locals → BlockDeclares locals derivation →
    blockDepth derivation + 1 ≤ budget → state.rest.length ≤ bound →
    Yields (reader start) state (blockTree locals derivation) rest
      (blockLocalsAfter locals derivation)

theorem guarded_yields {bound budget : Nat} {block : Nat → Parser Block}
    (hblock : AcceptsBlock bound budget block) {place : Expr → Nat} {index : Expr → Nat}
    {target : Expr → Block → Nat} {finish : Expr → Block → Stmt} (test : Expression)
    (body : List Statement) {state : State} {rest : List Item} {locals : Option SlotTable}
    (hspells : Spells state.rest
      (test.word ++ .mark "\x7b" :: (blockWord body ++ [.mark "\x7d"])) rest)
    (hlocals : state.locals = locals) (hdeclares : BlockDeclares locals body)
    (hdepth : max test.depth (blockDepth body + 1) ≤ budget)
    (hbound : state.rest.length ≤ bound) :
    Yields (do
      let test ← expression bound budget
      let body ← block (place test)
      settle (index test) (target test body)
      return finish test body : Parser Stmt) state
      (finish (test.tree locals) (blockTree locals body)) rest (blockLocalsAfter locals body) := by
  obtain ⟨middle, htest, hbody⟩ := hspells.append
  have hlength := htest.length
  refine (expression_yields bound budget test htest
    (stopsExpression_of_spells_mark hbody (by decide)) hlocals (by omega) hbound).bind ?_
  rintro after rfl hlocals'
  refine (hblock body _ hbody hlocals' hdeclares (by omega) (by omega)).bind ?_
  intro last hrest hlocals''
  exact ⟨_, rfl, hrest, hlocals''⟩

theorem evaluate_yields {bound budget : Nat} {term : Term} (calls : List (List Expression))
    {token : Token} {state : State} {rest : List Item} {locals : Option SlotTable}
    (hterminal : token.terminal = term.terminal)
    (hspells : Spells state.rest (callWord calls) rest) (hstops : StopsStatement rest)
    (hlocals : state.locals = locals) (hdepth : callDepth calls ≤ budget)
    (hbound : state.rest.length ≤ bound) :
    Yields (do return .evaluate (← callable (expression bound budget) bound token) : Parser Stmt)
      state (.evaluate (callTree locals (term.tree locals) calls)) rest locals := by
  obtain ⟨symbol, hsymbol, hends⟩ := hstops
  refine (callable_yields (expression_yields bound budget) calls hterminal hspells
    ⟨symbol, hsymbol, hends.1.1⟩ hlocals hdepth hbound).bind ?_
  intro last hrest hlocals'
  exact .pure _ hrest hlocals'

/-- Every statement within the budget is accepted. -/
theorem statement_yields {bound budget : Nat} {block : Nat → Parser Block}
    (hblock : AcceptsBlock bound budget block) :
    AcceptsStatement bound budget (statement bound budget block) := by
  intro derivation start word token state rest locals hword hspells hstops hlocals hdeclares
    hdepth hbound
  unfold statement
  simp only [Token.isMark_iff, Token.isWord_iff]
  cases derivation <;> simp only [Statement.word, List.cons.injEq] at hword <;>
    obtain ⟨hterminal, rfl⟩ := hword
  case empty =>
    rw [if_pos hterminal.symm]
    exact .pure _ hspells.nil hlocals
  case ret =>
    simp only [← hterminal, reduceCtorEq, if_false, if_true]
    exact .pure _ hspells.nil hlocals
  case branch test body =>
    simp only [← hterminal, reduceCtorEq, Terminal.identifier.injEq, String.reduceEq, if_false,
      if_true]
    exact guarded_yields hblock test body hspells hlocals hdeclares hdepth hbound
  case loop test body =>
    simp only [← hterminal, reduceCtorEq, Terminal.identifier.injEq, String.reduceEq, if_false,
      if_true]
    exact guarded_yields hblock test body hspells hlocals hdeclares hdepth hbound
  case declare name type declarable =>
    obtain ⟨table, rfl, hnew⟩ := hdeclares
    simp only [← hterminal, reduceCtorEq, Terminal.identifier.injEq, String.reduceEq, if_false,
      if_true]
    exact localDeclaration_yields declarable hspells hlocals hnew
  case assign name free value =>
    have hname := Token.text_of_terminal_identifier hterminal.symm
    simp only [keywords, List.mem_cons, List.not_mem_nil, or_false, not_or] at free
    simp only [← hterminal, reduceCtorEq, Terminal.identifier.injEq, if_false, free]
    rw [if_pos (Token.kind_eq_identifier_iff.2 ⟨_, hterminal.symm⟩)]
    refine Yields.peek hspells.lookahead fun sign hsign => ?_
    rw [if_pos (Token.kind_eq_assign_iff.2 hsign)]
    refine Yields.next hspells fun _ middle _ hvalue hsame hsize => ?_
    refine (expression_yields bound budget value hvalue hstops.stopsExpression
      (hsame.trans hlocals) hdepth (by omega)).bind ?_
    rintro last rfl hlocals'
    refine ⟨last, ?_, rfl, hlocals'⟩
    rw [bind_of_ok (resolve_ok token.text), hname, hlocals']
    rfl
  case evaluate term free calls =>
    have hfree : ∀ word ∈ keywords, token.terminal ≠ .identifier word := by
      intro word hmem
      rw [← hterminal]
      exact Term.terminal_ne_keyword free hmem
    simp only [keywords, List.mem_cons, List.not_mem_nil, or_false, forall_eq_or_imp,
      forall_eq] at hfree
    rw [if_neg (hterminal ▸ term.terminal_ne_mark _)]
    simp only [hfree, if_false]
    split
    next hname =>
      have hlookahead : ∃ symbol, lookahead state.rest = some symbol ∧ symbol ≠ .assign := by
        cases calls with
        | nil =>
            obtain ⟨symbol, hsymbol, hends⟩ := hstops
            refine ⟨symbol, hspells.nil ▸ hsymbol, ?_⟩
            rintro rfl
            exact hends.2 [] rfl
        | cons arguments calls => exact ⟨_, hspells.lookahead, by simp⟩
      obtain ⟨symbol, hsymbol, hassign⟩ := hlookahead
      refine Yields.peek hsymbol fun sign hsign => ?_
      rw [if_neg (by rw [Token.kind_eq_assign_iff, hsign]; exact hassign)]
      exact evaluate_yields calls hterminal.symm hspells hstops hlocals hdepth hbound
    next => exact evaluate_yields calls hterminal.symm hspells hstops hlocals hdepth hbound

/-! ## Blocks -/

theorem closing_endsStatement (closing : Closing) : EndsStatement [closing.terminal] := by
  cases closing <;> simp [Closing.terminal, EndsStatement, EndsExpression, EndsCalls]

/-- Statements stop where the next one starts or where they are closed. -/
theorem stopsStatement_of_spells {items rest : List Item} {derivation : List Statement}
    {closing : Closing} (h : Spells items (blockWord derivation) rest)
    (hclosing : lookahead rest = some closing.terminal) : StopsStatement items := by
  cases derivation with
  | nil =>
      rw [h.nil]
      exact ⟨_, hclosing, closing_endsStatement closing⟩
  | cons first others =>
      obtain ⟨middle, hfirst, -⟩ := Spells.append h
      obtain ⟨symbol, word, hword, hopens⟩ := first.word_eq_cons
      rw [hword] at hfirst
      exact ⟨symbol, hfirst.lookahead, hopens.endsStatement []⟩

theorem next_closing_yields {state : State} {symbol : Terminal}
    (h : lookahead state.rest = some symbol) :
    ∃ token, token.terminal = symbol ∧ Yields next state token state.rest.tail state.locals := by
  unfold Yields next
  cases hrest : state.rest with
  | nil =>
      rw [hrest] at h
      exact ⟨.eof state.line, Option.some.inj h, state, rfl, hrest, rfl⟩
  | cons item rest =>
      cases item with
      | error error => simp [hrest, lookahead] at h
      | ok token =>
          rw [hrest] at h
          exact ⟨token, Option.some.inj h, _, rfl, rfl, rfl⟩

theorem closes_of_terminal {closing : Closing} {token : Token}
    (h : token.terminal = closing.terminal) : closing.closes token = pure true := by
  cases closing <;> simp [Closing.closes, Token.isMark_iff, Token.kind_eq_eof_iff, h,
    Closing.terminal]

theorem closes_of_opens {closing : Closing} {token : Token} (h : token.terminal.Opens) :
    closing.closes token = pure false := by
  have hend : token.terminal ≠ .endOfInput := by
    intro hterminal
    simp [hterminal, Terminal.Opens] at h
  have hbrace : token.terminal ≠ .mark "\x7d" := by
    intro hterminal
    simp [hterminal, Terminal.Opens] at h
  cases closing <;> simp [Closing.closes, Token.isMark_iff, Token.kind_eq_eof_iff, hend, hbrace]

/-- Statements are accepted together with what closes them. -/
theorem statements_yields {bound budget : Nat} {statement : Nat → Token → Parser Stmt}
    (hstatement : AcceptsStatement bound budget statement) {closing : Closing}
    (derivation : List Statement) {rounds start : Nat} {state : State} {rest : List Item}
    {locals : Option SlotTable} (hspells : Spells state.rest (blockWord derivation) rest)
    (hclosing : lookahead rest = some closing.terminal) (hlocals : state.locals = locals)
    (hdeclares : BlockDeclares locals derivation) (hdepth : blockDepth derivation ≤ budget)
    (hrounds : state.rest.length ≤ rounds) (hbound : state.rest.length ≤ bound) :
    Yields (statements statement closing rounds start) state (blockTree locals derivation)
      rest.tail (blockLocalsAfter locals derivation) := by
  induction derivation generalizing rounds start state locals with
  | nil =>
      obtain rfl := hspells.nil
      obtain ⟨token, hterminal, hnext⟩ := next_closing_yields hclosing
      -- Whether or not a round is left, the closing symbol is all that is read.
      cases rounds <;>
      · refine hnext.bind fun state' hrest hlocals' => ?_
        rw [closes_of_terminal hterminal, pure_bind, if_pos rfl]
        exact .pure _ hrest (hlocals'.trans hlocals)
  | cons first others ih =>
      obtain ⟨middle, hfirst, hothers⟩ := Spells.append hspells
      obtain ⟨symbol, word, hword, hopens⟩ := first.word_eq_cons
      rw [hword] at hfirst
      rw [blockDepth] at hdepth
      have hlength := hfirst.length
      rw [List.length_cons] at hlength
      obtain ⟨rounds, rfl⟩ : ∃ n, rounds = n + 1 := ⟨rounds - 1, by omega⟩
      refine Yields.next hfirst fun token inside hterminal htail hsame hsize => ?_
      subst hterminal
      rw [closes_of_opens hopens, pure_bind, if_neg (by decide)]
      refine (hstatement first start hword htail (stopsStatement_of_spells hothers hclosing)
        (hsame.trans hlocals) hdeclares.1 (by omega) (by omega)).bind ?_
      rintro after rfl hlocals'
      refine (ih hothers hlocals' hdeclares.2 (by omega) (by omega) (by omega)).bind ?_
      intro last hrest hlast
      exact .pure _ hrest hlast

/-- Every block in braces within the budget is accepted. -/
theorem block_yields (bound budget : Nat) : AcceptsBlock bound budget (block bound budget) := by
  induction budget with
  | zero =>
      intro derivation start state rest locals _ _ _ hdepth
      omega
  | succ budget ih =>
      intro derivation start state rest locals hspells hlocals hdeclares hdepth hbound
      refine mark_yields hspells fun token inside htail hsame hsize => ?_
      obtain ⟨middle, hbody, hclose⟩ := htail.append
      obtain ⟨brace, tail, rfl, hbrace, hend⟩ := hclose.cons
      obtain rfl := hend.nil
      exact statements_yields (statement_yields ih) derivation hbody (congrArg some hbrace)
        (hsame.trans hlocals) hdeclares (by omega) (by omega) (by omega)

/-- Every block within the nesting limit is accepted, up to the end of the input. -/
theorem wholeBlock_yields (derivation : List Statement) {bound start : Nat} {state : State}
    {rest : List Item} (hspells : Spells state.rest (blockWord derivation) rest)
    (hend : lookahead rest = some .endOfInput) (hdeclares : BlockDeclares state.locals derivation)
    (hdepth : blockDepth derivation ≤ nestingLimit) (hbound : state.rest.length ≤ bound) :
    Yields (wholeBlock bound start) state (blockTree state.locals derivation) rest.tail
      (blockLocalsAfter state.locals derivation) := by
  have hclosing : lookahead rest = some Closing.endOfInput.terminal := hend
  exact statements_yields (statement_yields (block_yields bound nestingLimit)) derivation
    hspells hclosing rfl hdeclares hdepth hbound hbound

end StackScript.Parser
