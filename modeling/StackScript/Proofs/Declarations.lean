import Mathlib.Data.List.Forall2
import Mathlib.Data.Option.Basic
import StackScript.Proofs.LexicalGrammar
import StackScript.Proofs.ScriptTree

/-!
# Declarations as they are written

A script starts with declarations, each of which spells a word of its own, and top-level code
follows. Reading such a script gives one definition for each declaration, and which one depends on
the symbols of that declaration only.
-/

namespace StackScript

open Grammar StackScript.Parser

namespace Grammar

/-- The symbols close the braces that are open and those that they open, and the input does not end
among them. -/
def isEnclosed : (depth : Nat) → List Terminal → Bool
  | depth, [] => depth = 0
  | depth, symbol :: rest =>
      if symbol = .mark "\x7b" then isEnclosed (depth + 1) rest
      else if symbol = .mark "\x7d" then depth ≠ 0 && isEnclosed (depth - 1) rest
      else symbol ≠ .endOfInput && isEnclosed depth rest

/-- A declaration of a script. The types in it are those that can be written, and the braces of a
body are balanced. -/
inductive Declared where
  | variable (name : String) (type : TypeTag) (declarable : type.isDeclarable = true)
  | function (name : String) (params : List Variable)
      (declarable : ∀ param ∈ params, param.type.isDeclarable = true) (returns : Option TypeTag)
      (returnable : ∀ type ∈ returns, type.isDeclarable = true) (body : List Terminal)
      (enclosed : isEnclosed 0 body = true)

/-- The words that open a declaration. -/
def declarationWords : List String :=
  ["var", "func"]

/-- The word that parameters with commas between them spell. -/
def parameterWord : List Variable → List Terminal
  | [] => []
  | [last] => [.identifier last.name, .identifier last.type.name]
  | first :: next :: rest =>
      .identifier first.name :: .identifier first.type.name :: .mark "," ::
        parameterWord (next :: rest)

theorem length_le_parameterWord (params : List Variable) :
    params.length ≤ (parameterWord params).length := by
  match params with
  | [] => exact Nat.le_refl 0
  | [last] => simp [parameterWord]
  | first :: next :: rest =>
      have hrest := length_le_parameterWord (next :: rest)
      simp only [parameterWord, List.length_cons] at hrest ⊢
      omega

/-- The word that a return type spells, if there is one. -/
def returnWord : Option TypeTag → List Terminal
  | none => []
  | some type => [.identifier type.name]

/-- The word that a declaration spells. -/
def Declared.word : Declared → List Terminal
  | .variable name type _ => [.identifier "var", .identifier name, .identifier type.name]
  | .function name params _ returns _ body _ =>
      .identifier "func" :: .identifier name :: .mark "(" :: (parameterWord params ++
        .mark ")" :: (returnWord returns ++ .mark "\x7b" :: (body ++ [.mark "\x7d"])))

theorem length_le_flatMap_word (declared : List Declared) :
    declared.length ≤ (declared.flatMap Declared.word).length := by
  induction declared with
  | nil => exact Nat.le_refl 0
  | cons first rest ih =>
      have hfirst : 0 < first.word.length := by cases first <;> simp [Declared.word]
      rw [List.flatMap_cons, List.length_append, List.length_cons]
      omega

/-- A declaration that was read: the body of a function is a stream that spells its symbols and
ends. -/
inductive Declared.Gives : Declared → Declaration → Prop
  | variable {name : String} {type : TypeTag} {declarable : type.isDeclarable = true} :
      Gives (.variable name type declarable) (.variable name type)
  | function {name : String} {params : List Variable}
      {declarable : ∀ param ∈ params, param.type.isDeclarable = true} {returns : Option TypeTag}
      {returnable : ∀ type ∈ returns, type.isDeclarable = true} {body : List Terminal}
      {enclosed : isEnclosed 0 body = true} {items : List Item}
      (spells : Parser.Spells items (body ++ [.endOfInput]) []) :
      Gives (.function name params declarable returns returnable body enclosed)
        (.function { name, params, returns } items)

end Grammar

/-! ## Readers -/

namespace Parser

variable {β : Type}

theorem typedName_yields {expected : Expected} {name : String} {type : TypeTag}
    {word : List Terminal} {state : State} {rest rest' : List Item}
    {second : Token × TypeTag → Parser β} {result : β} {locals : Option SlotTable}
    (hdeclarable : type.isDeclarable = true)
    (h : Spells state.rest (.identifier name :: .identifier type.name :: word) rest)
    (h' : ∀ token state', token.text = name → Spells state'.rest word rest →
      state'.locals = state.locals → Yields (second (token, type)) state' result rest' locals) :
    Yields (typedName expected >>= second) state result rest' locals := by
  unfold typedName
  simp only [bind_assoc]
  refine identifier_yields h fun first middle hfirst htail hsame => ?_
  refine identifier_yields htail fun last after hlast hend hsame' => ?_
  simp only [declarableType, hlast, TypeTag.ofName?_name, hdeclarable, if_true, pure_bind]
  exact h' first after hfirst hend (hsame'.trans hsame)

theorem parameters_yields (params : List Variable) {bound : Nat} {state : State}
    {rest : List Item} (hne : params ≠ [])
    (hdeclarable : ∀ param ∈ params, param.type.isDeclarable = true)
    (hspells : Spells state.rest (parameterWord params ++ [.mark ")"]) rest)
    (hbound : params.length ≤ bound) :
    Yields (parameters bound) state params rest state.locals := by
  induction params generalizing bound state with
  | nil => exact absurd rfl hne
  | cons first others ih =>
      obtain ⟨bound, rfl⟩ : ∃ n, bound = n + 1 := ⟨bound - 1, by simp at hbound; omega⟩
      obtain ⟨hfirst, hothers⟩ := List.forall_mem_cons.1 hdeclarable
      cases others with
      | nil =>
          refine typedName_yields hfirst hspells fun name middle hname htail hsame => ?_
          refine Yields.next htail fun token last hterminal hend hsame' _ => ?_
          rw [if_pos (Token.isMark_iff.2 hterminal), hname]
          exact .pure _ hend.nil (hsame'.trans hsame)
      | cons second others =>
          refine typedName_yields hfirst hspells fun name middle hname htail hsame => ?_
          refine Yields.next htail fun token last hterminal hend hsame' _ => ?_
          rw [if_neg (by simp [Token.isMark_iff, hterminal]),
            if_pos (Token.isMark_iff.2 hterminal), hname]
          refine (ih (by simp) hothers hend (by simpa using hbound)).bind ?_
          intro after hrest hlocals
          exact .pure _ hrest (hlocals.trans (hsame'.trans hsame))

theorem parameterList_yields (params : List Variable) {bound : Nat} {state : State}
    {rest : List Item} (hdeclarable : ∀ param ∈ params, param.type.isDeclarable = true)
    (hspells : Spells state.rest (parameterWord params ++ [.mark ")"]) rest)
    (hbound : params.length ≤ bound) :
    Yields (parameterList bound) state params rest state.locals := by
  cases params with
  | nil =>
      refine Yields.peek hspells.lookahead fun token hterminal => ?_
      rw [if_pos (Token.isMark_iff.2 hterminal)]
      refine Yields.next hspells fun _ state' _ hend hsame _ => ?_
      exact .pure _ hend.nil hsame
  | cons first others =>
      have hlookahead : lookahead state.rest = some (.identifier first.name) := by
        cases others <;> exact hspells.lookahead
      refine Yields.peek hlookahead fun token hterminal => ?_
      rw [if_neg (by simp [Token.isMark_iff, hterminal])]
      exact parameters_yields _ (by simp) hdeclarable hspells hbound

theorem returnType_yields (returns : Option TypeTag) {word : List Terminal} {state : State}
    {rest : List Item} (hdeclarable : ∀ type ∈ returns, type.isDeclarable = true)
    (hspells : Spells state.rest (returnWord returns ++ .mark "\x7b" :: word) rest) :
    ∃ middle, Spells middle (.mark "\x7b" :: word) rest ∧
      Yields returnType state returns middle state.locals := by
  cases returns with
  | none =>
      refine ⟨state.rest, hspells, ?_⟩
      refine Yields.peek hspells.lookahead fun token hterminal => ?_
      rw [if_neg (by simp [Token.kind_eq_identifier_iff, hterminal])]
      exact .pure _ rfl rfl
  | some type =>
      obtain ⟨middle, hname, hbrace⟩ := hspells.append
      refine ⟨middle, hbrace, ?_⟩
      refine Yields.peek hname.lookahead fun token hterminal => ?_
      rw [if_pos (Token.kind_eq_identifier_iff.2 ⟨_, hterminal⟩)]
      refine Yields.next hname fun name state' hname' hend hsame _ => ?_
      simp only [declarableType, Token.text_of_terminal_identifier hname', TypeTag.ofName?_name,
        hdeclarable type rfl, if_true, pure_bind]
      exact .pure _ hend.nil hsame

/-- A body is taken up to the brace that closes it, and the end of the input stands for that
brace. -/
theorem enclosed_yields (tokens : List Token) {closing : Token} {bound depth : Nat} {state : State}
    {rest : List Item} (henclosed : isEnclosed depth (tokens.map Token.terminal) = true)
    (hclosing : closing.terminal = .mark "\x7d")
    (hrest : state.rest = tokens.map .ok ++ .ok closing :: rest) (hbound : tokens.length < bound) :
    Yields (enclosed bound depth) state (tokens.map .ok ++ [.ok (.eof closing.line)]) rest
      state.locals := by
  induction tokens generalizing bound depth state with
  | nil =>
      obtain ⟨bound, rfl⟩ : ∃ n, bound = n + 1 := ⟨bound - 1, by omega⟩
      obtain rfl : depth = 0 := by simpa [isEnclosed] using henclosed
      refine (next_yields hrest).bind fun state' hrest' hlocals => ?_
      rw [if_neg (by simp [Token.kind_eq_eof_iff, hclosing]),
        if_pos (Token.isMark_iff.2 hclosing)]
      exact .pure _ hrest' hlocals
  | cons token others ih =>
      obtain ⟨bound, rfl⟩ : ∃ n, bound = n + 1 := ⟨bound - 1, by omega⟩
      refine (next_yields hrest).bind fun state' hrest' hlocals => ?_
      have hmore : ∀ depth, isEnclosed depth (others.map Token.terminal) = true →
          Yields (do return .ok token :: (← enclosed bound depth)) state'
            (.ok token :: (others.map .ok ++ [.ok (.eof closing.line)])) rest state.locals := by
        intro depth hothers
        refine (ih hothers hrest' (by simpa using hbound)).bind fun final hdone hsame => ?_
        exact .pure _ hdone (hsame.trans hlocals)
      simp only [List.map_cons, isEnclosed] at henclosed
      split at henclosed
      next hopens =>
        rw [if_neg (by simp [Token.kind_eq_eof_iff, hopens]),
          if_neg (by simp [Token.isMark_iff, hopens]), if_pos (Token.isMark_iff.2 hopens)]
        exact hmore _ henclosed
      next hopens =>
        split at henclosed
        next hcloses =>
          obtain ⟨hdepth, hothers⟩ := Bool.and_eq_true_iff.1 henclosed
          obtain ⟨depth, rfl⟩ : ∃ n, depth = n + 1 := ⟨depth - 1, by simp at hdepth; omega⟩
          rw [if_neg (by simp [Token.kind_eq_eof_iff, hcloses]),
            if_pos (Token.isMark_iff.2 hcloses)]
          exact hmore _ hothers
        next hcloses =>
          obtain ⟨hsymbol, hothers⟩ := Bool.and_eq_true_iff.1 henclosed
          rw [if_neg (by simpa [Token.kind_eq_eof_iff] using hsymbol),
            if_neg (by simpa [Token.isMark_iff] using hcloses),
            if_neg (by simpa [Token.isMark_iff] using hopens)]
          exact hmore _ hothers

/-- Takes what follows the word `func` up to the brace that opens the body. -/
def functionHead (bound : Nat) : Parser Signature := do
  let name ← identifier .functionName
  let _ ← mark "("
  let params ← parameterList bound
  let returns ← returnType
  let _ ← mark "\x7b"
  return { name := name.text, params, returns }

theorem functionDeclaration_eq (bound : Nat) :
    functionDeclaration bound = (do
      let signature ← functionHead bound
      let body ← enclosed bound 0
      return .function signature body) := by
  simp only [functionDeclaration, functionHead, bind_assoc, pure_bind]

theorem functionHead_yields {name : String} {params : List Variable}
    (hparams : ∀ param ∈ params, param.type.isDeclarable = true) {returns : Option TypeTag}
    (hreturns : ∀ type ∈ returns, type.isDeclarable = true) {bound : Nat} {state : State}
    {rest : List Item}
    (hspells : Spells state.rest (.identifier name :: .mark "(" :: (parameterWord params ++
      .mark ")" :: (returnWord returns ++ [.mark "\x7b"]))) rest)
    (hbound : params.length ≤ bound) :
    Yields (functionHead bound) state { name, params, returns } rest state.locals := by
  refine identifier_yields hspells fun token named hname hopen hsame => ?_
  refine mark_yields hopen fun _ inside hlist hsame' _ => ?_
  rw [List.append_cons] at hlist
  obtain ⟨_, hlist, hhead⟩ := hlist.append
  refine (parameterList_yields params hparams hlist hbound).bind fun after hrest hsame₂ => ?_
  subst hrest
  obtain ⟨_, hbrace, hreturn⟩ := returnType_yields returns hreturns hhead
  refine hreturn.bind fun before hrest hsame₃ => ?_
  subst hrest
  refine mark_yields hbrace fun _ final hend hsame₄ _ => ?_
  rw [hname]
  refine .pure _ hend.nil ?_
  rw [hsame₄, hsame₃, hsame₂, hsame', hsame]

/-- A declaration is taken as a whole. -/
theorem declaration?_yields (declared : Declared) {bound : Nat} {state : State}
    {rest : List Item} (hspells : Spells state.rest declared.word rest)
    (hbound : state.rest.length ≤ bound) :
    ∃ declaration, declared.Gives declaration ∧
      Yields (declaration? bound) state (some declaration) rest state.locals := by
  have hlength := hspells.length
  match declared with
  | .variable name type declarable =>
      refine ⟨_, .variable, Yields.peek hspells.lookahead fun token hterminal => ?_⟩
      rw [if_pos (Token.isWord_iff.2 hterminal)]
      refine Yields.next hspells fun _ inside _ htail hsame _ => ?_
      refine typedName_yields declarable htail fun first last hfirst hend hsame' => ?_
      subst hfirst
      exact .pure _ hend.nil (hsame'.trans hsame)
  | .function name params declarable returns returnable body henclosed =>
      -- the head is read up to the brace, and the body from there on
      have hword : (Declared.function name params declarable returns returnable body
          henclosed).word = (.identifier "func" :: .identifier name :: .mark "(" ::
            (parameterWord params ++ .mark ")" :: (returnWord returns ++ [.mark "\x7b"]))) ++
          (body ++ [.mark "\x7d"]) := by
        simp [Declared.word]
      rw [hword] at hspells hlength
      obtain ⟨middle, hfront, tokens, rfl, hbody⟩ := hspells.append
      obtain ⟨inside, last, rfl, hinside, hlast⟩ := List.map_eq_append_iff.1 hbody
      obtain ⟨closing, rfl, hclosing⟩ := List.map_eq_singleton_iff.1 hlast
      subst hinside
      refine ⟨.function { name, params, returns } (inside.map .ok ++ [.ok (.eof closing.line)]),
        .function ⟨inside ++ [.eof closing.line], by simp, by simp; rfl⟩, ?_⟩
      refine Yields.peek hfront.lookahead fun token hterminal => ?_
      rw [if_neg (by simp [Token.isWord_iff, hterminal]), if_pos (Token.isWord_iff.2 hterminal)]
      refine Yields.next hfront fun _ opened _ hhead hsame _ => ?_
      have hparams := length_le_parameterWord params
      simp only [List.length_append, List.length_cons, List.length_map] at hlength
      rw [functionDeclaration_eq]
      simp only [bind_assoc]
      refine (functionHead_yields declarable returnable hhead (by omega)).bind ?_
      intro before hrest hsame'
      refine (enclosed_yields inside henclosed hclosing (by simpa using hrest) (by omega)).bind ?_
      intro final hrest' hsame''
      exact .pure _ hrest' (by rw [hsame'', hsame', hsame])

/-- Nothing else is a declaration. -/
theorem declaration?_yields_none {bound : Nat} {state : State} {symbol : Terminal}
    (h : lookahead state.rest = some symbol)
    (hplain : ∀ word ∈ declarationWords, symbol ≠ .identifier word) :
    Yields (declaration? bound) state none state.rest state.locals := by
  refine Yields.peek h fun token hterminal => ?_
  rw [if_neg, if_neg]
  · exact .pure _ rfl rfl
  · rw [Token.isWord_iff, hterminal]
    exact hplain "func" (by simp [declarationWords])
  · rw [Token.isWord_iff, hterminal]
    exact hplain "var" (by simp [declarationWords])

end Parser

/-- Declarations are taken up to the first symbol that opens none. -/
theorem Script.takeDeclarations_yields (declared : List Declared) {limit bound : Nat}
    {state : State} {rest : List Item} {symbol : Terminal}
    (hspells : Spells state.rest (declared.flatMap Declared.word) rest)
    (hnext : lookahead rest = some symbol)
    (hplain : ∀ word ∈ declarationWords, symbol ≠ .identifier word)
    (hlimit : state.rest.length ≤ limit) (hbound : declared.length ≤ bound) :
    ∃ declarations, List.Forall₂ Declared.Gives declared declarations ∧
      Yields (takeDeclarations limit bound) state declarations rest state.locals := by
  induction declared generalizing bound state with
  | nil =>
      obtain rfl := hspells.nil
      refine ⟨[], .nil, ?_⟩
      cases bound with
      | zero => exact .pure _ rfl rfl
      | succ bound =>
          refine (declaration?_yields_none hnext hplain).bind fun final hrest hlocals => ?_
          exact .pure _ hrest hlocals
  | cons first others ih =>
      obtain ⟨bound, rfl⟩ : ∃ n, bound = n + 1 := ⟨bound - 1, by simp at hbound; omega⟩
      rw [List.flatMap_cons] at hspells
      obtain ⟨middle, hfirst, hothers⟩ := hspells.append
      have hlength := hfirst.length
      obtain ⟨declaration, hgives, after, hread, rfl, hlocals⟩ :=
        declaration?_yields first hfirst hlimit
      obtain ⟨declarations, hall, hyields⟩ := ih hothers (by omega) (by simpa using hbound)
      refine ⟨declaration :: declarations, .cons hgives hall, ?_⟩
      obtain ⟨final, htake, hdone, hsame⟩ := hyields
      refine ⟨final, ?_, hdone, hsame.trans hlocals⟩
      exact bind_eq_ok.2 ⟨_, _, hread, bind_eq_ok.2 ⟨_, _, htake, rfl⟩⟩

/-! ## Definitions -/

namespace Grammar

/-- A derivation of a word within the limits. -/
structure Parses (word : List Terminal) (locals : Option SlotTable)
    (derivation : List Statement) : Prop where
  spells : blockWord derivation = word
  declares : BlockDeclares locals derivation
  nesting : blockDepth derivation ≤ nestingLimit

/-- What the compiler admits depends on the symbols before the end of the input only. -/
theorem admits_iff_parses {tokens : List Token} {locals : Option SlotTable}
    {derivation : List Statement} :
    Admits (tokens.map .ok) locals derivation ↔
      Parses ((tokens.map Token.terminal).takeWhile (· ≠ .endOfInput)) locals derivation := by
  have hbefore : (Token.beforeEnd tokens).map Token.terminal =
      (tokens.map Token.terminal).takeWhile (· ≠ .endOfInput) := by
    simp only [Token.beforeEnd, List.takeWhile_map, Function.comp_def, ne_eq,
      Token.kind_eq_eof_iff]
  rw [Build.admits_iff_derives]
  constructor
  · intro h
    exact ⟨h.spells.trans hbefore, h.declares, h.nesting⟩
  · intro h
    exact ⟨h.spells.trans hbefore.symm, h.declares, h.nesting⟩

theorem endOfInput_notMem_of_isEnclosed {depth : Nat} {body : List Terminal}
    (h : isEnclosed depth body = true) : .endOfInput ∉ body := by
  induction body generalizing depth with
  | nil => simp
  | cons symbol rest ih =>
      unfold isEnclosed at h
      rw [List.mem_cons, not_or]
      split at h
      next hopens => exact ⟨by simp [hopens], ih h⟩
      next =>
        split at h
        next hcloses => exact ⟨by simp [hcloses], ih (Bool.and_eq_true_iff.1 h).2⟩
        next =>
          obtain ⟨hsymbol, hrest⟩ := Bool.and_eq_true_iff.1 h
          exact ⟨fun hend => by simp [hend] at hsymbol, ih hrest⟩

theorem takeWhile_body {body : List Terminal} (h : isEnclosed 0 body = true) :
    (body ++ [Terminal.endOfInput]).takeWhile (· ≠ .endOfInput) = body := by
  rw [List.takeWhile_append_of_pos, List.takeWhile_cons_of_neg (by simp), List.append_nil]
  intro symbol hsymbol
  rw [decide_eq_true_eq]
  rintro rfl
  exact endOfInput_notMem_of_isEnclosed h hsymbol

/-- The definition that a declaration makes, if its body has a derivation within the limits. -/
def Declared.Defines : Declared → Definition → Prop
  | .variable name type _, definition => definition = .variable name type
  | .function name params _ returns _ body _, definition =>
      ∃ table derivation, Signature.table { name, params, returns } = .ok table ∧
        Parses body (some table) derivation ∧
        definition = .function { name, params, returns }
          ((blockLocalsAfter (some table) derivation).getD {}) (blockTree (some table) derivation)

end Grammar

namespace Script

/-- What a declaration defines depends on its symbols only. -/
theorem define_iff {declared : Declared} {declaration : Declaration}
    (h : declared.Gives declaration) {definition : Definition} (events : Array Event) :
    (∃ events', define declaration events = .ok definition events') ↔
      declared.Defines definition := by
  cases h with
  | «variable» =>
      constructor
      · rintro ⟨_, hdefine⟩
        exact (pure_eq_ok.1 hdefine).1.symm
      · rintro rfl
        exact ⟨events, rfl⟩
  | @function name params _ returns _ body enclosed items spells =>
      obtain ⟨tokens, rfl, hword⟩ := spells
      have hparses : ∀ {locals derivation}, Admits (tokens.map .ok ++ []) locals derivation ↔
          Parses body locals derivation := by
        intro locals derivation
        rw [List.append_nil, admits_iff_parses, hword, takeWhile_body enclosed]
      constructor
      · rintro ⟨_, hdefine⟩
        obtain ⟨table, _, htable, hbody⟩ := bind_eq_ok.1 hdefine
        obtain ⟨⟨tree, locals⟩, _, hblock, hresult⟩ := bind_eq_ok.1 hbody
        obtain ⟨derivation, hadmits, rfl, rfl⟩ := Build.block_ok hblock
        exact ⟨table, derivation, (liftM_eq_ok.1 htable).1, hparses.1 hadmits,
          (pure_eq_ok.1 hresult).1.symm⟩
      · rintro ⟨table, derivation, htable, hderivation, rfl⟩
        obtain ⟨events', hblock⟩ := Build.block_of_admits (hparses.2 hderivation) 0 events
        exact ⟨events', bind_eq_ok.2 ⟨_, _, liftM_eq_ok.2 ⟨htable, rfl⟩,
          bind_eq_ok.2 ⟨_, _, hblock, rfl⟩⟩⟩

theorem defineAll_iff {declared : List Declared} {declarations : List Declaration}
    (h : List.Forall₂ Declared.Gives declared declarations) {definitions : List Definition}
    (events : Array Event) :
    (∃ events', defineAll declarations events = .ok definitions events') ↔
      List.Forall₂ Declared.Defines declared definitions := by
  induction h generalizing definitions events with
  | nil =>
      rw [List.forall₂_nil_left_iff]
      constructor
      · rintro ⟨_, hdefine⟩
        exact (pure_eq_ok.1 hdefine).1.symm
      · rintro rfl
        exact ⟨events, rfl⟩
  | cons hfirst _ ih =>
      constructor
      · rintro ⟨events', hdefine⟩
        obtain ⟨definition, middle, hdefinition, hothers⟩ := bind_eq_ok.1 hdefine
        obtain ⟨others, _, hrest, hresult⟩ := bind_eq_ok.1 hothers
        obtain ⟨rfl, rfl⟩ := pure_eq_ok.1 hresult
        exact .cons ((define_iff hfirst events).1 ⟨_, hdefinition⟩) ((ih middle).1 ⟨_, hrest⟩)
      · intro hdefines
        cases hdefines with
        | cons hdefinition hothers =>
            obtain ⟨middle, hdefine⟩ := (define_iff hfirst events).2 hdefinition
            obtain ⟨events', hrest⟩ := (ih middle).2 hothers
            exact ⟨events', bind_eq_ok.2 ⟨_, _, hdefine, bind_eq_ok.2 ⟨_, _, hrest, rfl⟩⟩⟩

end Script

/-! ## Scripts -/

namespace Token

/-- The symbol of an item, or nothing for an error. -/
def symbol? : Item → Option Terminal
  | .ok token => some token.terminal
  | .error _ => none

/-- The symbols of a text up to its end or to the first thing that is no token. -/
def symbols (text : String) : List (Option Terminal) :=
  (scan text).map symbol?

/-- A text all of whose symbols are there can be read as tokens. -/
theorem exists_tokens {text : String} {word : List Terminal} (h : symbols text = word.map some) :
    ∃ tokens, tokenize text = .ok tokens := by
  simp only [tokenize_eq_ok]
  unfold symbols at h
  generalize scan text = items at h
  induction items generalizing word with
  | nil => exact ⟨[], rfl⟩
  | cons item items ih =>
      obtain ⟨symbol, word, rfl, hsymbol, hword⟩ := List.map_eq_cons_iff.1 h.symm
      cases item with
      | error error => cases hsymbol
      | ok token =>
          obtain ⟨tokens, rfl⟩ := ih hword.symm
          exact ⟨token :: tokens, rfl⟩

theorem symbols_of_tokenize {text : String} {tokens : List Token}
    (h : tokenize text = .ok tokens) : symbols text = (tokens.map Token.terminal).map some := by
  rw [symbols, tokenize_eq_ok.1 h, List.map_map, List.map_map]
  rfl

end Token

namespace Script

/-- The text of a script: declarations, and then top-level code that does not begin like one. -/
structure Written (source : String) (declared : List Declared) (main : List (Option Terminal)) :
    Prop where
  symbols : Token.symbols source = (declared.flatMap Declared.word).map some ++ main
  plain : ∀ word ∈ declarationWords, main.head? ≠ some (some (.identifier word))

/-- The top-level code can be read as a block. -/
def TopLevel (main : List (Option Terminal)) (block : Block) : Prop :=
  ∃ (word : List Terminal) (derivation : List Statement), main = word.map some ∧
    Parses (word.takeWhile (· ≠ .endOfInput)) none derivation ∧ block = blockTree none derivation

variable {source : String} {declared : List Declared} {main : List (Option Terminal)}
  {tokens : List Token}

/-- What follows the declarations opens none. -/
theorem Written.lookahead {rest : List Token}
    (h : Written source declared ((rest.map Token.terminal).map some)) :
    ∃ symbol, Parser.lookahead (rest.map .ok) = some symbol ∧
      ∀ word ∈ declarationWords, symbol ≠ .identifier word := by
  cases rest with
  | nil => exact ⟨.endOfInput, rfl, by simp⟩
  | cons first rest =>
      refine ⟨first.terminal, rfl, ?_⟩
      rintro word hword hfirst
      exact h.plain word hword (by simp [hfirst])

/-- The declarations of a script are read as they are written, and its top-level code is left. -/
theorem Written.takeDeclarations (h : Written source declared main)
    (htokens : Token.tokenize source = .ok tokens) (events : Array Event) :
    ∃ (declarations : List Declaration) (state : Parser.State) (rest : List Token),
      List.Forall₂ Declared.Gives declared declarations ∧
      Script.takeDeclarations tokens.length tokens.length { rest := tokens.map .ok, events } =
        .ok declarations state ∧
      state.rest = rest.map .ok ∧ main = (rest.map Token.terminal).map some := by
  have hsymbols := (Token.symbols_of_tokenize htokens).symm.trans h.symbols
  obtain ⟨_, _, hsplit, hleft, rfl⟩ := List.map_eq_append_iff.1 hsymbols
  obtain ⟨front, rest, rfl, rfl, rfl⟩ := List.map_eq_append_iff.1 hsplit
  have hword : front.map Token.terminal = declared.flatMap Declared.word :=
    List.map_injective_iff.2 (Option.some_injective _) hleft
  let start : Parser.State := { rest := (front ++ rest).map .ok, events }
  have hspells : Spells start.rest (declared.flatMap Declared.word) (rest.map .ok) :=
    ⟨front, List.map_append, hword⟩
  have hlength : declared.length ≤ (front ++ rest).length := by
    have hfront := congrArg List.length hword
    have hwords := length_le_flatMap_word declared
    rw [List.length_map] at hfront
    rw [List.length_append]
    omega
  obtain ⟨symbol, hnext, hplain⟩ := h.lookahead
  have hlimit : start.rest.length ≤ (front ++ rest).length := Nat.le_of_eq (List.length_map _)
  obtain ⟨declarations, hgives, state, htake, hrest, -⟩ :=
    Script.takeDeclarations_yields declared hspells hnext hplain hlimit hlength
  exact ⟨declarations, state, rest, hgives, htake, hrest, rfl⟩

theorem mapError_eq_ok {ε ε' α : Type} {computed : Except ε α} {f : ε → ε'} {result : α} :
    computed.mapError f = .ok result ↔ computed = .ok result := by
  cases computed <;> simp [Except.mapError]

/-- What a script is read as depends on the symbols of its declarations, one by one, and on those of
its top-level code. -/
theorem Written.tree_iff (h : Written source declared main) {tree : Tree} (events : Array Event) :
    (∃ events', Script.tree source events = .ok tree events') ↔
      List.Forall₂ Declared.Defines declared tree.definitions ∧ TopLevel main tree.main := by
  constructor
  · rintro ⟨_, htree⟩
    obtain ⟨tokens, before, hlift, hdeclared⟩ := bind_eq_ok.1 htree
    obtain ⟨htokens, rfl⟩ := liftM_eq_ok.1 hlift
    obtain ⟨⟨found, reached⟩, _, hparse, hdefined⟩ := bind_eq_ok.1 hdeclared
    obtain ⟨definitions, _, hdefine, hblock⟩ := bind_eq_ok.1 hdefined
    obtain ⟨⟨block, _⟩, _, hmain, hresult⟩ := bind_eq_ok.1 hblock
    obtain ⟨rfl, -⟩ := pure_eq_ok.1 hresult
    obtain ⟨declarations, state, rest, hgives, htake, hrest, rfl⟩ :=
      h.takeDeclarations (mapError_eq_ok.1 htokens) before
    obtain ⟨rfl, rfl⟩ := EStateM.Result.ok.inj (htake.symm.trans (Build.parse_eq_ok.1 hparse).1)
    obtain ⟨derivation, hadmits, rfl, -⟩ := Build.block_ok hmain
    rw [hrest, admits_iff_parses] at hadmits
    exact ⟨(defineAll_iff hgives _).1 ⟨_, hdefine⟩, _, derivation, rfl, hadmits, rfl⟩
  · rintro ⟨hdefines, word, derivation, rfl, hparses, hmain⟩
    have hsymbols : Token.symbols source = (declared.flatMap Declared.word ++ word).map some := by
      rw [h.symbols, List.map_append]
    obtain ⟨tokens, htokens⟩ := Token.exists_tokens hsymbols
    obtain ⟨declarations, state, rest, hgives, htake, hrest, hword⟩ :=
      h.takeDeclarations htokens events
    obtain ⟨middle, hdefine⟩ := (defineAll_iff hgives state.events).2 hdefines
    have hadmits : Admits state.rest none derivation := by
      rw [hrest, admits_iff_parses,
        ← List.map_injective_iff.2 (Option.some_injective Terminal) hword]
      exact hparses
    obtain ⟨events', hblock⟩ := Build.block_of_admits hadmits 0 middle
    rw [← hmain] at hblock
    refine ⟨events', bind_eq_ok.2 ⟨_, _, liftM_eq_ok.2 ⟨mapError_eq_ok.2 htokens, rfl⟩, ?_⟩⟩
    refine bind_eq_ok.2 ⟨_, _, Build.parse_eq_ok.2 ⟨htake, rfl⟩, ?_⟩
    exact bind_eq_ok.2 ⟨_, _, hdefine, bind_eq_ok.2 ⟨_, _, hblock, rfl⟩⟩

end Script

end StackScript
