import StackScript.Proofs.Declarations
import StackScript.Proofs.LocalTypes
import StackScript.Proofs.Rendering
import StackScript.Proofs.TreeProgram

/-!
# The names in compiled code

Every global that the code of a script names, and every function of its program, has a name that
is written in the script as an identifier. So it is made of letters, digits and underscores.
-/

namespace StackScript

open Grammar StackScript.Parser

variable {ν : Type}

/-- The global that an instruction names. -/
def Instruction.name? : Instruction → Option String
  | .loadGlobal name | .assignGlobal name => some name
  | _ => none

/-- The name that a terminal symbol is. -/
def Grammar.Terminal.name? : Terminal → Option String
  | .identifier text => some text
  | _ => none

theorem Grammar.Terminal.name?_eq_some {symbol : Terminal} {name : String} :
    symbol.name? = some name ↔ symbol = .identifier name := by
  cases symbol <;> simp [name?]

/-- The name that an item of a stream is. -/
def Item.name? : Item → Option String
  | .ok token => token.terminal.name?
  | .error _ => none

/-- The globals that code names. -/
def codeNames (code : List Instruction) : List String :=
  code.flatMap fun instruction => instruction.name?.toList

/-- The names that a stream holds. -/
def Items.names (items : List Item) : List String :=
  items.flatMap fun item => (Item.name? item).toList

/-- The names that a word holds. -/
def Grammar.wordNames (word : List Terminal) : List String :=
  word.flatMap fun symbol => symbol.name?.toList

/-! ## Derivations -/

namespace Grammar

@[simp] theorem codeNames_nil : codeNames [] = [] := rfl

theorem codeNames_cons (first : Instruction) (rest : List Instruction) :
    codeNames (first :: rest) = first.name?.toList ++ codeNames rest := rfl

@[simp] theorem codeNames_push (literal : Literal) (rest : List Instruction) :
    codeNames (.push literal :: rest) = codeNames rest := rfl

@[simp] theorem codeNames_binary (operator : Operator) (rest : List Instruction) :
    codeNames (.binary operator :: rest) = codeNames rest := rfl

@[simp] theorem codeNames_invoke (arguments : Nat) (rest : List Instruction) :
    codeNames (.invoke arguments :: rest) = codeNames rest := rfl

@[simp] theorem codeNames_ret (rest : List Instruction) :
    codeNames (.ret :: rest) = codeNames rest := rfl

@[simp] theorem codeNames_jumpIfZero (target : Nat) (rest : List Instruction) :
    codeNames (.jumpIfZero target :: rest) = codeNames rest := rfl

@[simp] theorem codeNames_pop (rest : List Instruction) :
    codeNames (.pop :: rest) = codeNames rest := rfl

@[simp] theorem codeNames_append (code code' : List Instruction) :
    codeNames (code ++ code') = codeNames code ++ codeNames code' :=
  List.flatMap_append

@[simp] theorem wordNames_nil : wordNames [] = [] := rfl

theorem wordNames_cons (first : Terminal) (rest : List Terminal) :
    wordNames (first :: rest) = first.name?.toList ++ wordNames rest := rfl

@[simp] theorem wordNames_mark (symbol : String) (rest : List Terminal) :
    wordNames (.mark symbol :: rest) = wordNames rest := rfl

@[simp] theorem wordNames_operator (symbol : String) (rest : List Terminal) :
    wordNames (.operator symbol :: rest) = wordNames rest := rfl

@[simp] theorem wordNames_assign (rest : List Terminal) :
    wordNames (.assign :: rest) = wordNames rest := rfl

@[simp] theorem wordNames_identifier (name : String) (rest : List Terminal) :
    wordNames (.identifier name :: rest) = name :: wordNames rest := rfl

@[simp] theorem wordNames_append (word word' : List Terminal) :
    wordNames (word ++ word') = wordNames word ++ wordNames word' :=
  List.flatMap_append

/-- The commas between arguments are no names. -/
@[simp] theorem wordNames_argumentWord_cons (first : Expression) (rest : List Expression) :
    wordNames (argumentWord (first :: rest)) =
      wordNames first.word ++ wordNames (argumentWord rest) := by
  cases rest <;> simp [argumentWord]

/-- A place is a local, or the global of the name that it was found under. -/
theorem place_eq (locals : Option SlotTable) (name : String) :
    (∃ slot type, place locals name = .slot slot type) ∨ place locals name = .global name := by
  unfold place
  split
  · exact .inl ⟨_, _, rfl⟩
  · exact .inr rfl

theorem name?_load_subset (locals : Option SlotTable) (name : String) :
    (place locals name).load.name?.toList ⊆ [name] := by
  rcases place_eq locals name with ⟨slot, type, h⟩ | h <;>
    simp [h, Place.load, Instruction.name?]

theorem name?_store_subset (locals : Option SlotTable) (name : String) :
    (place locals name).store.name?.toList ⊆ [name] := by
  rcases place_eq locals name with ⟨slot, type, h⟩ | h <;>
    simp [h, Place.store, Instruction.name?]

theorem Term.codeNames_subset (locals : Option SlotTable) (term : Term) :
    codeNames (term.tree locals).code ⊆ term.terminal.name?.toList := by
  cases term with
  | number | string => exact List.nil_subset _
  | identifier name =>
      rw [Term.tree, Expr.code, codeNames_cons, codeNames_nil, List.append_nil]
      exact name?_load_subset locals name

mutual

theorem Expression.codeNames_subset (locals : Option SlotTable) (expression : Expression) :
    codeNames (expression.tree locals).code ⊆ wordNames expression.word := by
  match expression with
  | .plain term calls =>
      have hterm := term.codeNames_subset locals
      have hcalls := callTree_codeNames_subset locals calls (term.tree locals)
      rw [Expression.tree, Expression.word, wordNames_cons]
      grind
  | .operation term calls operator right =>
      have hterm := term.codeNames_subset locals
      have hcalls := callTree_codeNames_subset locals calls (term.tree locals)
      have hright := right.codeNames_subset locals
      simp only [Expression.tree, Expression.word, Expr.code, codeNames_append, codeNames_binary,
        codeNames_nil, wordNames_cons term.terminal, wordNames_append, wordNames_operator]
      grind

theorem callTree_codeNames_subset (locals : Option SlotTable) (calls : List (List Expression))
    (callee : Expr) :
    codeNames (callTree locals callee calls).code ⊆
      codeNames callee.code ++ wordNames (callWord calls) := by
  match calls with
  | [] => simp [callTree]
  | arguments :: rest =>
      have harguments := argumentTrees_codeNames_subset locals arguments
      have hrest :=
        callTree_codeNames_subset locals rest (.call callee (argumentTrees locals arguments))
      simp only [callTree, callWord, Expr.code, codeNames_append, codeNames_invoke, codeNames_nil,
        wordNames_append, wordNames_mark] at hrest ⊢
      grind

theorem argumentTrees_codeNames_subset (locals : Option SlotTable)
    (arguments : List Expression) :
    codeNames (Expr.codeAll (argumentTrees locals arguments)) ⊆
      wordNames (argumentWord arguments) := by
  match arguments with
  | [] => simp [argumentTrees, Expr.codeAll]
  | first :: rest =>
      have hfirst := first.codeNames_subset locals
      have hrest := argumentTrees_codeNames_subset locals rest
      rw [argumentTrees, Expr.codeAll, codeNames_append, wordNames_argumentWord_cons]
      grind

end

mutual

theorem Statement.codeNames_subset (locals : Option SlotTable) (statement : Statement)
    (start : Nat) :
    codeNames ((statement.tree locals).code start) ⊆ wordNames statement.word := by
  match statement with
  | .empty | .ret | .declare _ _ _ => exact List.nil_subset _
  | .branch test body =>
      have htest := test.codeNames_subset locals
      have hbody := blockTree_codeNames_subset locals body
      simp only [Statement.tree, Statement.word, Stmt.code, codeNames_append,
        codeNames_jumpIfZero, wordNames_identifier, wordNames_append, wordNames_mark]
      grind
  | .loop test body =>
      have htest := test.codeNames_subset locals
      have hbody := blockTree_codeNames_subset locals body
      simp only [Statement.tree, Statement.word, Stmt.code, codeNames_append, codeNames_push,
        codeNames_jumpIfZero, codeNames_nil, wordNames_identifier, wordNames_append,
        wordNames_mark]
      grind
  | .assign name _ value =>
      have hvalue := value.codeNames_subset locals
      have hstore := name?_store_subset locals name
      simp only [Statement.tree, Statement.word, Stmt.code, codeNames_append, codeNames_cons,
        codeNames_nil, wordNames_identifier, wordNames_assign]
      grind
  | .evaluate term _ calls =>
      have hterm := term.codeNames_subset locals
      have hcalls := callTree_codeNames_subset locals calls (term.tree locals)
      simp only [Statement.tree, Statement.word, Stmt.code, codeNames_append, wordNames_cons]
      split <;> simp only [codeNames_pop, codeNames_nil] <;> grind

/-- The code of a block names globals only that are written in it. -/
theorem blockTree_codeNames_subset (locals : Option SlotTable) (block : List Statement)
    (start : Nat) :
    codeNames (Block.code start (blockTree locals block)) ⊆ wordNames (blockWord block) := by
  match block with
  | [] => exact List.nil_subset _
  | first :: rest =>
      have hfirst := first.codeNames_subset locals start
      have hrest := blockTree_codeNames_subset (first.localsAfter locals) rest
      simp only [blockTree, blockWord, Block.code, codeNames_append, wordNames_append]
      grind

end

end Grammar

/-! ## Streams -/

namespace Items

@[simp] theorem names_cons (first : Item) (rest : List Item) :
    names (first :: rest) = (Item.name? first).toList ++ names rest := rfl

@[simp] theorem names_append (items items' : List Item) :
    names (items ++ items') = names items ++ names items' :=
  List.flatMap_append

/-- A stream holds the names of the word that it starts with. -/
theorem wordNames_subset {items rest : List Item} {word : List Terminal}
    (h : Spells items word rest) : wordNames word ⊆ names items := by
  obtain ⟨tokens, rfl, rfl⟩ := h
  have hnames : names (tokens.map .ok) = wordNames (tokens.map Token.terminal) := by
    simp [names, wordNames, List.flatMap_map, Item.name?]
  rw [names_append, hnames]
  exact List.subset_append_left _ _

end Items

/-- A block that is read from a stream names globals only that the stream holds. -/
theorem Build.codeNames_subset {items : List Item} {locals locals' : Option SlotTable}
    {start : Nat} {block : Block} {events events' : Array Event}
    (h : Build.block items locals start events = .ok (block, locals') events') (place : Nat) :
    codeNames (Block.code place block) ⊆ Items.names items := by
  obtain ⟨derivation, hadmits, rfl, -⟩ := block_ok h
  obtain ⟨rest, hspells, -⟩ := hadmits.spells
  exact List.Subset.trans (blockTree_codeNames_subset locals derivation place)
    (Items.wordNames_subset hspells)

/-! ## Declarations -/

/-- The names that a declaration holds: its own, and those of a function's body. -/
def Declaration.names : Declaration → List String
  | .variable name _ => [name]
  | .function signature body => signature.name :: Items.names body

namespace Parser

variable {α β : Type} {names : List String}

/-- From a stream whose names are among the given ones, the reader takes a result that has the
property, and it leaves such a stream. -/
def Draws (names : List String) (parser : Parser α) (post : α → Prop) : Prop :=
  ∀ ⦃state result state'⦄, Items.names state.rest ⊆ names → parser state = .ok result state' →
    Items.names state'.rest ⊆ names ∧ post result

namespace Draws

theorem pure {post : α → Prop} {result : α} (h : post result) :
    Draws names (pure result) post := by
  intro state _ _ hstate hresult
  obtain ⟨rfl, rfl⟩ := pure_eq_ok.1 hresult
  exact ⟨hstate, h⟩

theorem throw {post : α → Prop} (error : CompileError) :
    Draws names (throw error) post :=
  fun _ _ _ _ h => absurd h throw_ne_ok

theorem bind {first : Parser α} {second : α → Parser β} {middle : α → Prop} {post : β → Prop}
    (h : Draws names first middle) (h' : ∀ value, middle value → Draws names (second value) post) :
    Draws names (first >>= second) post := by
  intro state _ _ hstate hresult
  obtain ⟨value, reached, hfirst, hsecond⟩ := bind_eq_ok.1 hresult
  obtain ⟨hreached, hvalue⟩ := h hstate hfirst
  exact h' value hvalue hreached hsecond

theorem ite {condition : Prop} [Decidable condition] {yes no : Parser α} {post : α → Prop}
    (hyes : condition → Draws names yes post) (hno : ¬condition → Draws names no post) :
    Draws names (if condition then yes else no) post := by
  split
  next h => exact hyes h
  next h => exact hno h

end Draws

theorem next_draws : Draws names next fun token => token.terminal.name?.toList ⊆ names := by
  intro state token state' hstate h
  unfold next at h
  split at h
  next hrest =>
    obtain ⟨rfl, rfl⟩ := EStateM.Result.ok.inj h
    exact ⟨hstate, List.nil_subset _⟩
  next => cases h
  next found rest hrest =>
    obtain ⟨rfl, rfl⟩ := EStateM.Result.ok.inj h
    rw [hrest, Items.names_cons, List.append_subset] at hstate
    exact ⟨hstate.2, hstate.1⟩

theorem peek_draws : Draws names peek fun token => token.terminal.name?.toList ⊆ names := by
  intro state token state' hstate h
  unfold peek at h
  split at h
  next hrest =>
    obtain ⟨rfl, rfl⟩ := EStateM.Result.ok.inj h
    exact ⟨hstate, List.nil_subset _⟩
  next => cases h
  next found rest hrest =>
    obtain ⟨rfl, rfl⟩ := EStateM.Result.ok.inj h
    refine ⟨hstate, ?_⟩
    rw [hrest, Items.names_cons, List.append_subset] at hstate
    exact hstate.1

theorem mark_draws (symbol : String) : Draws names (mark symbol) fun _ => True :=
  next_draws.bind fun _ _ => .ite (fun _ => .pure trivial) fun _ => .throw _

theorem identifier_draws (expected : Expected) :
    Draws names (identifier expected) fun token => token.text ∈ names := by
  refine next_draws.bind fun token htoken => .ite (fun hkind => .pure ?_) fun _ => .throw _
  obtain ⟨text, hterminal⟩ := Token.kind_eq_identifier_iff.1 hkind
  rw [hterminal] at htoken
  rw [Token.text_of_terminal_identifier hterminal]
  exact htoken (List.mem_singleton.2 rfl)

theorem declarableType_draws (token : Token) :
    Draws names (declarableType token) fun _ => True := by
  intro state _ _ hstate h
  obtain ⟨rfl, -, -⟩ := declarableType_ok h
  exact ⟨hstate, trivial⟩

theorem typedName_draws (expected : Expected) :
    Draws names (typedName expected) fun found => found.1.text ∈ names := by
  refine (identifier_draws expected).bind fun _ hname => ?_
  refine (identifier_draws .typeName).bind fun word _ => ?_
  exact (declarableType_draws word).bind fun _ _ => .pure hname

theorem parameters_draws (bound : Nat) : Draws names (parameters bound) fun _ => True := by
  induction bound with
  | zero => exact (typedName_draws _).bind fun _ _ => .pure trivial
  | succ bound ih =>
      refine (typedName_draws _).bind fun _ _ => next_draws.bind fun _ _ => ?_
      refine .ite (fun _ => .pure trivial) fun _ => ?_
      exact .ite (fun _ => ih.bind fun _ _ => .pure trivial) fun _ => .throw _

theorem parameterList_draws (bound : Nat) : Draws names (parameterList bound) fun _ => True := by
  refine peek_draws.bind fun _ _ => .ite (fun _ => ?_) fun _ => parameters_draws bound
  exact next_draws.bind fun _ _ => .pure trivial

theorem returnType_draws : Draws names returnType fun _ => True := by
  refine peek_draws.bind fun _ _ => .ite (fun _ => ?_) fun _ => .pure trivial
  refine next_draws.bind fun token _ => ?_
  exact (declarableType_draws token).bind fun _ _ => .pure trivial

theorem enclosed_draws (bound depth : Nat) :
    Draws names (enclosed bound depth) fun items => Items.names items ⊆ names := by
  induction bound generalizing depth with
  | zero => exact next_draws.bind fun _ _ => .throw _
  | succ bound ih =>
      refine next_draws.bind fun token htoken => ?_
      have hmore : ∀ depth, Draws names (do return .ok token :: (← enclosed bound depth))
          fun items => Items.names items ⊆ names :=
        fun depth => (ih depth).bind fun items hitems =>
          .pure (List.append_subset.2 ⟨htoken, hitems⟩)
      refine .ite (fun _ => .throw _) fun _ => .ite (fun _ => ?_) fun _ => ?_
      · cases depth with
        -- the end of the input that stands for the brace is no name
        | zero => exact .pure (List.nil_subset _)
        | succ depth => exact hmore depth
      · exact .ite (fun _ => hmore (depth + 1)) fun _ => hmore depth

theorem functionDeclaration_draws (bound : Nat) :
    Draws names (functionDeclaration bound) fun declaration => declaration.names ⊆ names := by
  refine (identifier_draws _).bind fun _ hname => (mark_draws _).bind fun _ _ => ?_
  refine (parameterList_draws bound).bind fun _ _ => returnType_draws.bind fun _ _ => ?_
  refine (mark_draws _).bind fun _ _ => (enclosed_draws bound 0).bind fun _ hbody => ?_
  exact .pure (List.cons_subset.2 ⟨hname, hbody⟩)

theorem declaration?_draws (bound : Nat) :
    Draws names (declaration? bound)
      fun found => ∀ declaration ∈ found, declaration.names ⊆ names := by
  refine peek_draws.bind fun _ _ => .ite (fun _ => ?_) fun _ => .ite (fun _ => ?_) fun _ => ?_
  · refine next_draws.bind fun _ _ => (typedName_draws _).bind fun _ hname => .pure ?_
    rintro _ ⟨⟩
    simpa [Declaration.names] using hname
  · refine next_draws.bind fun _ _ =>
      (functionDeclaration_draws bound).bind fun _ hdeclaration => .pure ?_
    rintro _ ⟨⟩
    exact hdeclaration
  · exact .pure (by simp)

end Parser

theorem Script.takeDeclarations_draws {names : List String} (limit bound : Nat) :
    Draws names (takeDeclarations limit bound)
      fun declared => ∀ declaration ∈ declared, declaration.names ⊆ names := by
  induction bound with
  | zero => exact .pure (by simp)
  | succ bound ih =>
      refine (declaration?_draws limit).bind fun found hfound => ?_
      cases found with
      | none => exact .pure (by simp)
      | some first =>
          exact ih.bind fun others hothers =>
            .pure (List.forall_mem_cons.2 ⟨hfound first rfl, hothers⟩)

/-! ## Programs -/

/-- The name of a definition is among the given ones, and so is every global that its body names,
wherever the body is placed. -/
def Definition.NamedIn (names : List String) : Definition → Prop
  | .variable name _ => name ∈ names
  | .function signature _ body =>
      signature.name ∈ names ∧ ∀ start, codeNames (Block.code start body) ⊆ names

namespace Script

theorem namedIn_of_define {declaration : Declaration} {definition : Definition}
    {names : List String} {events events' : Array Event}
    (h : define declaration events = .ok definition events')
    (hnames : declaration.names ⊆ names) : definition.NamedIn names := by
  match declaration with
  | .variable name type =>
      cases (pure_eq_ok.1 h).1
      exact hnames List.mem_cons_self
  | .function signature items =>
      obtain ⟨table, _, -, hbody⟩ := bind_eq_ok.1 h
      obtain ⟨⟨body, locals⟩, _, hblock, hresult⟩ := bind_eq_ok.1 hbody
      cases (pure_eq_ok.1 hresult).1
      obtain ⟨hname, hitems⟩ := List.cons_subset.1 hnames
      exact ⟨hname, fun start => List.Subset.trans (Build.codeNames_subset hblock start) hitems⟩

/-- All names of a tree are among the given ones. -/
structure Tree.NamedIn (tree : Tree) (names : List String) : Prop where
  definitions : ∀ definition ∈ tree.definitions, definition.NamedIn names
  main : ∀ start, codeNames (Block.code start tree.main) ⊆ names

/-- All names of a tree are written in its script. -/
theorem namedIn_of_tree {source : String} {tree : Tree} {events events' : Array Event}
    (h : Script.tree source events = .ok tree events') :
    ∃ tokens, Token.tokenize source = .ok tokens ∧
      tree.NamedIn (Items.names (tokens.map .ok)) := by
  obtain ⟨tokens, _, hlift, hdeclared⟩ := bind_eq_ok.1 h
  obtain ⟨⟨declared, state⟩, _, hparse, hdefined⟩ := bind_eq_ok.1 hdeclared
  obtain ⟨definitions, _, hdefine, hblock⟩ := bind_eq_ok.1 hdefined
  obtain ⟨⟨main, _⟩, _, hmain, hresult⟩ := bind_eq_ok.1 hblock
  cases (pure_eq_ok.1 hresult).1
  have htokens := mapError_eq_ok.1 (liftM_eq_ok.1 hlift).1
  have hdraws : Draws (Items.names (tokens.map .ok)) _ _ :=
    takeDeclarations_draws tokens.length tokens.length
  obtain ⟨hrest, hnames⟩ := hdraws (List.Subset.refl _) (Build.parse_eq_ok.1 hparse).1
  refine ⟨tokens, htokens, ?_, ?_⟩
  · intro definition hmem
    obtain ⟨declaration, hdeclaration, _, _, hfound⟩ := define_of_mem hdefine hmem
    exact namedIn_of_define hfound (hnames declaration hdeclaration)
  · exact fun start => List.Subset.trans (Build.codeNames_subset hmain start) hrest

theorem Tree.NamedIn.program {tree : Tree} {names : List String} (h : tree.NamedIn names)
    (natives : List (Builtin ν)) :
    codeNames (tree.program natives).code.toList ⊆ names ∧
      ∀ func ∈ (tree.program natives).functions, func.name ∈ names := by
  have hbodies : ∀ compiled ∈ tree.bodies,
      compiled.func.name ∈ names ∧ codeNames compiled.code ⊆ names := by
    intro compiled hmem
    obtain ⟨signature, locals, hdefinition, hname⟩ := Tree.definition_of_mem_bodies hmem
    obtain ⟨hnamed, hbody⟩ := h.definitions _ hdefinition
    rw [Compiled.code, codeNames_append, codeNames_ret, codeNames_nil, List.append_nil, hname]
    exact ⟨hnamed, hbody _⟩
  constructor
  · rw [Tree.toList_code_program, codeNames_append, List.append_subset]
    refine ⟨?_, h.main _⟩
    intro name hname
    obtain ⟨instruction, hmem, hfound⟩ := List.mem_flatMap.1 hname
    obtain ⟨compiled, hcompiled, hcode⟩ := List.mem_flatMap.1 hmem
    exact (hbodies compiled hcompiled).2 (List.mem_flatMap.2 ⟨instruction, hcode, hfound⟩)
  · intro func hfunc
    rw [Tree.functions_program] at hfunc
    obtain ⟨compiled, hcompiled, rfl⟩ := List.mem_map.1 hfunc
    exact (hbodies compiled hcompiled).1

end Script

/-- The names among the tokens of a text are made of letters, digits and underscores. -/
theorem Token.isWordPart_of_mem_names {source : String} {tokens : List Token}
    (h : tokenize source = .ok tokens) {name : String}
    (hname : name ∈ Items.names (tokens.map .ok)) : ∀ c ∈ name.toList, isWordPart c = true := by
  obtain ⟨_, hitem, hfound⟩ := List.mem_flatMap.1 hname
  obtain ⟨token, hmem, rfl⟩ := List.mem_map.1 hitem
  have hterminal : token.terminal = .identifier name :=
    Terminal.name?_eq_some.1 (Option.mem_toList.1 hfound)
  have hlexical := (Produced.lexical ⟨source, tokens, h, hmem⟩).resolve_left
    (by rw [kind_eq_eof_iff, hterminal]; simp)
  obtain ⟨after, written, hlexeme⟩ := hlexical
  rw [kind_eq_identifier_iff.2 ⟨name, hterminal⟩, text_of_terminal_identifier hterminal] at hlexeme
  generalize name.toList = text at hlexeme
  cases hlexeme with
  | word starts goesOn _ =>
      intro c hc
      rw [isWordPart_iff]
      rcases List.mem_cons.1 hc with rfl | hc
      · exact starts.imp_left fun halpha => by simp [Char.isAlphanum, halpha]
      · exact goesOn c hc

/-- The globals that the code of a compiled script names and the functions of its program have
names of letters, digits and underscores. -/
theorem Script.isWordPart_of_compile {natives : List (Builtin ν)} {source : String}
    {program : Program ν} {events events' : Array Event}
    (h : compile natives source events = .ok program events') :
    (∀ name ∈ codeNames program.code.toList, ∀ c ∈ name.toList, Token.isWordPart c = true) ∧
      ∀ func ∈ program.functions, ∀ c ∈ func.name.toList, Token.isWordPart c = true := by
  obtain ⟨tree, _, htree, rfl⟩ := program_of_compile h
  obtain ⟨tokens, htokens, hnamed⟩ := namedIn_of_tree htree
  obtain ⟨hcode, hfunctions⟩ := hnamed.program natives
  exact ⟨fun name hname => Token.isWordPart_of_mem_names htokens (hcode hname),
    fun func hfunc => Token.isWordPart_of_mem_names htokens (hfunctions func hfunc)⟩

end StackScript
