import Mathlib.Data.List.Forall2
import StackScript.Native
import StackScript.Proofs.Declarations
import StackScript.Proofs.Rendering
import StackScript.Proofs.TreeProgram

/-!
# Building without a script

Declarations can be handed to a builder one by one, so that each name is known only from its own
declaration on, or they can be written as a script, where all names are known before the first body
is compiled. Where the builder takes them all, the script compiles to the same program.
-/

namespace StackScript

open Grammar StackScript.Parser

variable {ν : Type}

/-! ## Braces in blocks -/

namespace Grammar

/-- The word closes the braces that it opens, and no others. -/
def Neutral (word : List Terminal) : Prop :=
  ∀ depth rest, isEnclosed depth (word ++ rest) = isEnclosed depth rest

namespace Neutral

variable {symbol : Terminal} {word word' : List Terminal}

theorem nil : Neutral [] :=
  fun _ _ => rfl

theorem cons (hplain : symbol ∉ [.mark "\x7b", .mark "\x7d", .endOfInput]) (h : Neutral word) :
    Neutral (symbol :: word) := by
  intro depth rest
  simp only [List.mem_cons, List.not_mem_nil, or_false, not_or] at hplain
  rw [List.cons_append, isEnclosed, if_neg hplain.1, if_neg hplain.2.1, h,
    decide_eq_true hplain.2.2, Bool.true_and]

theorem append (h : Neutral word) (h' : Neutral word') : Neutral (word ++ word') := by
  intro depth rest
  rw [List.append_assoc, h, h']

theorem braces (h : Neutral word) : Neutral (.mark "\x7b" :: (word ++ [.mark "\x7d"])) := by
  intro depth rest
  rw [List.cons_append, List.append_assoc, isEnclosed, if_pos rfl, h, List.singleton_append,
    isEnclosed, if_neg (by decide), if_pos rfl]
  rfl

end Neutral

theorem Term.terminal_plain (term : Term) :
    term.terminal ∉ [.mark "\x7b", .mark "\x7d", .endOfInput] := by
  cases term <;> simp [Term.terminal]

mutual

theorem Expression.neutral_word (expression : Expression) : Neutral expression.word := by
  cases expression with
  | plain term calls => exact .cons term.terminal_plain (neutral_callWord calls)
  | operation term calls operator right =>
      have hright : Neutral (.operator operator.symbol :: right.word) :=
        .cons (by simp) right.neutral_word
      exact .cons term.terminal_plain ((neutral_callWord calls).append hright)

theorem neutral_callWord (calls : List (List Expression)) : Neutral (callWord calls) := by
  match calls with
  | [] => exact .nil
  | arguments :: rest =>
      have hrest : Neutral (.mark ")" :: callWord rest) := .cons (by simp) (neutral_callWord rest)
      exact .cons (by simp) ((neutral_argumentWord arguments).append hrest)

theorem neutral_argumentWord (arguments : List Expression) : Neutral (argumentWord arguments) := by
  match arguments with
  | [] => exact .nil
  | [last] => exact last.neutral_word
  | first :: next :: rest =>
      have hrest : Neutral (.mark "," :: argumentWord (next :: rest)) :=
        .cons (by simp) (neutral_argumentWord (next :: rest))
      exact first.neutral_word.append hrest

end

mutual

theorem Statement.neutral_word (statement : Statement) : Neutral statement.word := by
  cases statement with
  | empty | ret => exact .cons (by simp) .nil
  | branch test body | loop test body =>
      exact .cons (by simp) (test.neutral_word.append (neutral_blockWord body).braces)
  | declare name type declarable =>
      exact .cons (by simp) (.cons (by simp) (.cons (by simp) .nil))
  | assign name free value => exact .cons (by simp) (.cons (by simp) value.neutral_word)
  | evaluate term free calls => exact .cons term.terminal_plain (neutral_callWord calls)

theorem neutral_blockWord (block : List Statement) : Neutral (blockWord block) := by
  match block with
  | [] => exact .nil
  | first :: rest => exact first.neutral_word.append (neutral_blockWord rest)

end

/-- The braces of a word that is a block are balanced. -/
theorem Parses.isEnclosed {word : List Terminal} {locals : Option SlotTable}
    {derivation : List Statement} (h : Parses word locals derivation) :
    Grammar.isEnclosed 0 word = true := by
  have hneutral := neutral_blockWord derivation 0 []
  rwa [List.append_nil, h.spells] at hneutral

end Grammar

/-! ## Tokens of declarations -/

namespace Token

/-- A word as a token. -/
def ofWord (text : String) : Token :=
  ⟨.identifier, text, 1⟩

/-- A punctuation mark as a token. -/
def ofMark (text : String) : Token :=
  ⟨.punctuation, text, 1⟩

/-- Whether a text can be written as a name. -/
def isName (text : String) : Bool :=
  match text.toList with
  | [] => false
  | first :: rest => isWordStart first && rest.all isWordPart

theorem lexical_ofWord {text : String} (h : isName text = true) : (ofWord text).Lexical := by
  unfold isName at h
  split at h
  · cases h
  next first rest htext =>
    obtain ⟨hfirst, hrest⟩ := Bool.and_eq_true_iff.1 h
    refine ⟨[], first :: rest, ?_⟩
    change Lexeme [] _ .identifier text.toList
    rw [htext]
    refine .word (isWordStart_iff.1 hfirst) ?_ (by simp)
    intro c hc
    exact isWordPart_iff.1 (List.all_eq_true.1 hrest c hc)

theorem lexical_ofMark {text : String} {symbol : Char} (htext : text = String.ofList [symbol])
    (h : symbol ∈ ['(', ')', '\x7b', '\x7d', ',', ';']) : (ofMark text).Lexical := by
  refine ⟨[], [symbol], ?_⟩
  change Lexeme [] _ .punctuation text.toList
  rw [htext, String.toList_ofList]
  exact .mark h

theorem isName_typeName (type : TypeTag) : isName type.name = true := by
  cases type <;> decide

/-- Tokens that texts have, with the end of the input in the last place only, if at all. -/
structure Stream (tokens : List Token) : Prop where
  produced : ∀ token ∈ tokens, token.Produced
  ends : ∀ token ∈ tokens.dropLast, token.kind ≠ .eof

/-- The tokens of a text are such a stream. -/
theorem Stream.of_tokenize {source : String} {tokens : List Token}
    (h : tokenize source = .ok tokens) : Stream tokens := by
  refine ⟨fun token hmem => ⟨source, tokens, h, hmem⟩, ?_⟩
  obtain ⟨pieces, rest, hdivides, -, rfl⟩ := divides_of_tokenize h
  rw [List.dropLast_concat]
  exact fun token hmem => (lexical_of_mem_pieceTokens hdivides hmem).kind_ne_eof

/-- The terminal symbols of tokens, up to the end of the input. -/
def word (tokens : List Token) : List Terminal :=
  (tokens.filter (·.kind ≠ .eof)).map terminal

theorem word_append (tokens tokens' : List Token) :
    word (tokens ++ tokens') = word tokens ++ word tokens' := by
  simp [word]

theorem word_cons {token : Token} (h : token.kind ≠ .eof) (tokens : List Token) :
    word (token :: tokens) = token.terminal :: word tokens := by
  simp [word, h]

theorem Stream.word_eq {tokens : List Token} (h : Stream tokens) :
    word tokens = (beforeEnd tokens).map terminal := by
  have hends := h.ends
  clear h
  induction tokens with
  | nil => rfl
  | cons first rest ih =>
      by_cases hfirst : first.kind = .eof
      · cases rest with
        | nil => simp [word, beforeEnd, hfirst]
        | cons second rest =>
            exact absurd hfirst (hends first (by simp))
      · have hrest : ∀ token ∈ rest.dropLast, token.kind ≠ .eof := by
          cases rest with
          | nil => simp
          | cons second rest => exact fun token hmem => hends token (List.mem_cons_of_mem _ hmem)
        rw [word_cons hfirst, ih hrest]
        simp [beforeEnd, hfirst]

/-- A block that a stream is read as spells the symbols of the stream. -/
theorem Stream.parses {tokens : List Token} (h : Stream tokens) {locals : Option SlotTable}
    {derivation : List Statement} (hadmits : Admits (tokens.map .ok) locals derivation) :
    Parses (word tokens) locals derivation := by
  have hderives := Build.admits_iff_derives.1 hadmits
  exact ⟨by rw [h.word_eq, hderives.spells], hderives.declares, hderives.nesting⟩

end Token

/-! ## Drafts -/

/-- A declaration for a builder that can also be written in a script: its names are words, its types
can be declared, and the tokens of its body are those of a text. -/
inductive Draft where
  | variable (name : String) (named : Token.isName name = true) (type : TypeTag)
      (declarable : type.isDeclarable = true)
  | function (name : String) (named : Token.isName name = true) (params : List Variable)
      (writable : ∀ param ∈ params,
        Token.isName param.name = true ∧ param.type.isDeclarable = true)
      (returns : Option TypeTag) (returnable : ∀ type ∈ returns, type.isDeclarable = true)
      (body : List Token) (stream : Token.Stream body)

namespace Draft

/-- The tokens of parameters with commas between them. -/
def parameterTokens : List Variable → List Token
  | [] => []
  | [last] => [.ofWord last.name, .ofWord last.type.name]
  | first :: next :: rest =>
      .ofWord first.name :: .ofWord first.type.name :: .ofMark "," ::
        parameterTokens (next :: rest)

/-- The token of a return type, if there is one. -/
def returnTokens : Option TypeTag → List Token
  | none => []
  | some type => [.ofWord type.name]

/-- The tokens that a declaration is written with. -/
def tokens : Draft → List Token
  | .variable name _ type _ => [.ofWord "var", .ofWord name, .ofWord type.name]
  | .function name _ params _ returns _ body _ =>
      .ofWord "func" :: .ofWord name :: .ofMark "(" :: (parameterTokens params ++
        .ofMark ")" :: (returnTokens returns ++ .ofMark "\x7b" :: (body ++ [.ofMark "\x7d"])))

/-- The text of a script. -/
def script (drafts : List Draft) (main : List Token) : String :=
  Token.renderAll (drafts.flatMap tokens ++ main)

end Draft

/-- Hands a declaration to a builder. -/
def Builder.add (builder : Builder ν) : Draft → Build (Builder ν)
  | .variable name _ type _ => do
      let (_, builder) ← builder.global name type
      return builder
  | .function name _ params _ returns _ body _ => do
      let (_, builder) ← builder.functionOfItems { name, params, returns } (body.map .ok)
      return builder

/-- Hands declarations to a builder one after the other. -/
def Builder.addAll : Builder ν → List Draft → Build (Builder ν)
  | builder, [] => return builder
  | builder, first :: rest => do
      let builder ← builder.add first
      builder.addAll rest

/-- Builds a program without a script. -/
def Draft.build (natives : List (Builtin ν)) (drafts : List Draft) (main : List Token) :
    Build (Program ν) := do
  let builder ← Builder.ofBuiltins natives
  let builder ← builder.addAll drafts
  builder.buildOfItems (main.map .ok)

namespace Draft

theorem lexical_parameterTokens {params : List Variable}
    (h : ∀ param ∈ params, Token.isName param.name = true ∧ param.type.isDeclarable = true) :
    ∀ token ∈ parameterTokens params, token.Lexical := by
  induction params with
  | nil => simp [parameterTokens]
  | cons first rest ih =>
      obtain ⟨⟨hname, -⟩, hrest⟩ := List.forall_mem_cons.1 h
      have hfirst := Token.lexical_ofWord hname
      have htype := Token.lexical_ofWord (Token.isName_typeName first.type)
      cases rest with
      | nil => simp [parameterTokens, hfirst, htype]
      | cons second rest =>
          have hcomma : (Token.ofMark ",").Lexical := Token.lexical_ofMark rfl (by simp)
          have hothers := ih hrest
          simpa [parameterTokens, hfirst, htype, hcomma] using hothers

theorem lexical_tokens (draft : Draft) :
    ∀ token ∈ draft.tokens, token.kind = .eof ∨ token.Lexical := by
  match draft with
  | .variable name named type _ =>
      have hword : (Token.ofWord "var").Lexical := Token.lexical_ofWord (by decide)
      have hname := Token.lexical_ofWord named
      have htype := Token.lexical_ofWord (Token.isName_typeName type)
      simp [tokens, hword, hname, htype]
  | .function name named params writable returns returnable body stream =>
      have hword : (Token.ofWord "func").Lexical := Token.lexical_ofWord (by decide)
      have hname := Token.lexical_ofWord named
      have hmark : ∀ text ∈ ["(", ")", "\x7b", "\x7d"], (Token.ofMark text).Lexical := by
        simp only [List.forall_mem_cons]
        refine ⟨?_, ?_, ?_, ?_, by simp⟩ <;> exact Token.lexical_ofMark rfl (by simp)
      have hreturns : ∀ token ∈ returnTokens returns, token.Lexical := by
        cases returns with
        | none => simp [returnTokens]
        | some type => simp [returnTokens, Token.lexical_ofWord (Token.isName_typeName type)]
      intro token hmem
      simp only [tokens, List.mem_cons, List.mem_append, List.not_mem_nil, or_false] at hmem
      rcases hmem with rfl | rfl | rfl | hparam | rfl | hreturn | rfl | hbody | rfl
      · exact .inr hword
      · exact .inr hname
      · exact .inr (hmark _ (by simp))
      · exact .inr (lexical_parameterTokens writable token hparam)
      · exact .inr (hmark _ (by simp))
      · exact .inr (hreturns token hreturn)
      · exact .inr (hmark _ (by simp))
      · exact (stream.produced token hbody).lexical
      · exact .inr (hmark _ (by simp))

theorem word_parameterTokens (params : List Variable) :
    Token.word (parameterTokens params) = parameterWord params := by
  match params with
  | [] => rfl
  | [last] => rfl
  | first :: next :: rest =>
      exact congrArg (_ :: _ :: _ :: ·) (word_parameterTokens (next :: rest))

theorem word_returnTokens (returns : Option TypeTag) :
    Token.word (returnTokens returns) = returnWord returns := by
  cases returns <;> rfl

/-- The body of a function is read back between the braces that stand around it. -/
theorem exists_declared {name : String} {params : List Variable} {returns : Option TypeTag}
    {body : List Token} (named : Token.isName name = true)
    (writable : ∀ param ∈ params, Token.isName param.name = true ∧ param.type.isDeclarable = true)
    (returnable : ∀ type ∈ returns, type.isDeclarable = true) (stream : Token.Stream body)
    {table : SlotTable} {derivation : List Statement}
    (htable : Signature.table { name, params, returns } = .ok table)
    (hparses : Parses (Token.word body) (some table) derivation) :
    ∃ declared : Declared,
      declared.word =
        Token.word (function name named params writable returns returnable body stream).tokens ∧
      declared.Defines (.function { name, params, returns }
        ((blockLocalsAfter (some table) derivation).getD {})
        (blockTree (some table) derivation)) := by
  refine ⟨.function name params (fun param hmem => (writable param hmem).2) returns returnable _
    hparses.isEnclosed, ?_, table, derivation, htable, hparses, rfl⟩
  simp only [tokens, Declared.word]
  have hword : ∀ (text : String) (rest : List Token),
      Token.word (.ofWord text :: rest) = .identifier text :: Token.word rest :=
    fun text rest => Token.word_cons (by simp [Token.ofWord]) rest
  have hmark : ∀ (text : String) (rest : List Token),
      Token.word (.ofMark text :: rest) = .mark text :: Token.word rest :=
    fun text rest => Token.word_cons (by simp [Token.ofMark]) rest
  rw [hword, hword, hmark, Token.word_append, word_parameterTokens, hmark, Token.word_append,
    word_returnTokens, hmark, Token.word_append, hmark]
  rfl

end Draft

/-! ## The two ways to a program -/

namespace Builder

/-- The builder has builtins, and after them definitions with their code in a row. No variable is
declared as a function. -/
structure Holds (builder : Builder ν) (natives : List (Builtin ν)) (placed : List Placed) :
    Prop where
  globals : builder.globals.entries =
    natives.map (fun native => ⟨native.name, .builtin⟩) ++ placed.map (·.definition.global)
  memory : builder.memory.toList = natives.map Value.builtin ++ placed.map Placed.value
  layout : builder.Layout (placed.filterMap Placed.compiled?)
  declarable : ∀ one ∈ placed, ∀ name type, one.definition = .variable name type →
    type.isDeclarable = true

theorem holds_ofBuiltins {natives : List (Builtin ν)} {builder : Builder ν}
    (h : ofBuiltins natives = .ok builder) : builder.Holds natives [] := by
  let nothing : Parser.State := { rest := [] }
  have hnone : Script.declarations 0 0 builder nothing = .ok ([], builder) nothing := rfl
  obtain ⟨hlayout, hglobals, hmemory⟩ := Script.layout_of_declarations h hnone
  exact ⟨hglobals, hmemory, hlayout, by simp⟩

namespace Holds

variable {builder builder' : Builder ν} {natives : List (Builtin ν)} {placed : List Placed}

/-- Every function that is declared is there, so no slot waits for one. -/
theorem functionSlot?_eq_none (h : builder.Holds natives placed) {name : String}
    {slot? : Option Nat} (hslot : builder.functionSlot? name = .ok slot?) : slot? = none := by
  cases slot? with
  | none => rfl
  | some slot =>
      obtain ⟨-, hentry, hfree⟩ := Tidy.functionSlot?_ok hslot
      simp only [← Array.getElem?_toList, h.memory] at hfree
      rw [h.globals] at hentry
      by_cases hlt : slot < natives.length
      · rw [List.getElem?_append_left (by simpa using hlt), List.getElem?_map] at hentry
        obtain ⟨native, -, hnative⟩ := Option.map_eq_some_iff.1 hentry
        cases hnative
      · have hle := Nat.le_of_not_lt hlt
        rw [List.getElem?_append_right (by simpa using hle), List.length_map,
          List.getElem?_map] at hentry
        obtain ⟨one, hone, hglobal⟩ := Option.map_eq_some_iff.1 hentry
        have hvalue : (natives.map Value.builtin ++ placed.map Placed.value)[slot]? =
            some one.value := by
          rw [List.getElem?_append_right (by simpa using hle), List.length_map,
            List.getElem?_map, hone]
          rfl
        obtain ⟨definition, entry⟩ := one
        match definition with
        | .variable name type =>
            cases hglobal
            cases h.declarable _ (List.mem_of_getElem? hone) _ _ rfl
        | .function signature locals body => exact absurd hvalue (hfree _)

/-- A function that is compiled gets the next slot. -/
theorem functionOfItems_new (h : builder.Holds natives placed) {signature : Signature}
    {body : List Item} {func : Func} {events events' : Array Event}
    (hfunction : builder.functionOfItems signature body events = .ok (func, builder') events') :
    builder'.globals.entries = builder.globals.entries ++ [⟨signature.name, .function⟩] ∧
      builder'.memory = builder.memory.push (.function func) := by
  obtain ⟨slot?, _, _, _, _, hslot, -, -, hfunc, hstore⟩ := functionOfItems_ok hfunction
  obtain rfl := h.functionSlot?_eq_none hslot
  obtain ⟨⟨slot, declared⟩, hdeclare, rfl⟩ := map_eq_ok.1 hstore
  obtain ⟨-, rfl⟩ := declare_ok hdeclare
  rw [hfunc]
  exact ⟨rfl, rfl⟩

/-- A draft that is added becomes a definition, with its code after the code there is. -/
theorem add (h : builder.Holds natives placed) {draft : Draft} {events events' : Array Event}
    (hadd : builder.add draft events = .ok builder' events') :
    ∃ (one : Placed) (declared : Declared), builder'.Holds natives (placed ++ [one]) ∧
      declared.word = Token.word draft.tokens ∧ declared.Defines one.definition := by
  match draft with
  | .variable name named type declarable =>
      obtain ⟨⟨slot, added⟩, _, hlift, hresult⟩ := bind_eq_ok.1 hadd
      obtain ⟨rfl, -⟩ := pure_eq_ok.1 hresult
      have hglobal := (liftM_eq_ok.1 hlift).1
      have hlayout := h.layout.declare hglobal (Value.initial_ne_function _)
      obtain ⟨-, hbuilder⟩ := declare_ok hglobal
      refine ⟨⟨.variable name type, 0⟩, .variable name type declarable, ?_, rfl, rfl⟩
      refine ⟨?_, ?_, ?_, ?_⟩
      · simp [hbuilder, h.globals, Definition.global]
      · simp [hbuilder, h.memory, Placed.value, Definition.value]
      · rw [List.filterMap_append, List.filterMap_cons_none rfl, List.filterMap_nil,
          List.append_nil]
        exact hlayout
      · intro one hmem name' type' heq
        rcases List.mem_append.1 hmem with hmem | hlast
        · exact h.declarable one hmem name' type' heq
        · rw [List.mem_singleton.1 hlast] at heq
          cases heq
          exact declarable
  | .function name named params writable returns returnable body stream =>
      obtain ⟨⟨func, added⟩, _, hfunction, hresult⟩ := bind_eq_ok.1 hadd
      obtain ⟨rfl, -⟩ := pure_eq_ok.1 hresult
      obtain ⟨table, tree, locals, _, htable, hblock, hfunc, hlayout⟩ :=
        h.layout.function hfunction
      obtain ⟨hglobals, hmemory⟩ := h.functionOfItems_new hfunction
      obtain ⟨derivation, hadmits, rfl, rfl⟩ := Build.block_ok hblock
      obtain ⟨declared, hword, hdefines⟩ := Draft.exists_declared named writable returnable stream
        htable (stream.parses hadmits)
      refine ⟨⟨_, builder.code.size⟩, declared, ⟨?_, ?_, ?_, ?_⟩, hword, hdefines⟩
      · simp [hglobals, h.globals, Definition.global]
      · simp [hmemory, h.memory, hfunc, Placed.value, Definition.value]
      · rw [hfunc] at hlayout
        rw [List.filterMap_append,
          List.filterMap_cons_some (show Placed.compiled? _ = some _ from rfl), List.filterMap_nil]
        exact hlayout
      · intro one hmem name' type' heq
        rcases List.mem_append.1 hmem with hmem | hlast
        · exact h.declarable one hmem name' type' heq
        · rw [List.mem_singleton.1 hlast] at heq
          cases heq

/-- Drafts that are added become definitions, which a script with their words has as well. -/
theorem addAll (h : builder.Holds natives placed) {drafts : List Draft}
    {events events' : Array Event}
    (hadd : builder.addAll drafts events = .ok builder' events') :
    ∃ (added : List Placed) (declared : List Declared),
      builder'.Holds natives (placed ++ added) ∧
      declared.flatMap Declared.word = Token.word (drafts.flatMap Draft.tokens) ∧
      List.Forall₂ Declared.Defines declared (added.map (·.definition)) := by
  induction drafts generalizing builder placed events with
  | nil =>
      obtain ⟨rfl, -⟩ := pure_eq_ok.1 hadd
      exact ⟨[], [], by rwa [List.append_nil], rfl, .nil⟩
  | cons first rest ih =>
      obtain ⟨middle, _, hfirst, hrest⟩ := bind_eq_ok.1 hadd
      obtain ⟨one, declared, hone, hword, hdefines⟩ := h.add hfirst
      obtain ⟨added, others, hadded, hwords, hall⟩ := ih hone hrest
      refine ⟨one :: added, declared :: others, ?_, ?_, .cons hdefines hall⟩
      · rwa [List.append_cons]
      · rw [List.flatMap_cons, List.flatMap_cons, Token.word_append, hword, hwords]

end Holds

end Builder

namespace Draft

variable {drafts : List Draft} {main : List Token}

/-- The symbols of the script that drafts are written as. -/
theorem symbols_script (hmain : Token.Stream main) :
    Token.symbols (script drafts main) =
      (Token.word (drafts.flatMap tokens)).map some ++
        (Token.word main ++ [Terminal.endOfInput]).map some := by
  have hlexical : ∀ token ∈ drafts.flatMap tokens ++ main, token.kind = .eof ∨ token.Lexical := by
    intro token hmem
    rcases List.mem_append.1 hmem with hdrafts | hrest
    · obtain ⟨draft, -, htoken⟩ := List.mem_flatMap.1 hdrafts
      exact draft.lexical_tokens token htoken
    · exact (hmain.produced token hrest).lexical
  obtain ⟨read, hread, hcontent⟩ := Token.tokenize_renderAll hlexical
  -- the symbol of a token depends on its content only
  let symbol (content : TokenKind × String) : Terminal := Token.terminal ⟨content.1, content.2, 1⟩
  have hsymbols := congrArg (List.map symbol) hcontent
  rw [List.map_append, List.map_map, List.map_map] at hsymbols
  have hword : read.map Token.terminal =
      Token.word (drafts.flatMap tokens ++ main) ++ [.endOfInput] := hsymbols
  rw [script, Token.symbols_of_tokenize hread, hword, Token.word_append, ← List.map_append,
    List.append_assoc]

/-- What the top-level code begins with is not taken for a declaration. -/
theorem written_script {declared : List Declared} (hmain : Token.Stream main)
    (hplain : ∀ word ∈ declarationWords, ∀ token ∈ main.head?, token.isWord word = false)
    (hwords : declared.flatMap Declared.word = Token.word (drafts.flatMap tokens)) :
    Script.Written (script drafts main) declared
      ((Token.word main ++ [Terminal.endOfInput]).map some) := by
  refine ⟨?_, fun word hword => ?_⟩
  · rw [symbols_script hmain, hwords]
  · rw [hmain.word_eq]
    cases main with
    | nil => simp [Token.beforeEnd]
    | cons first rest =>
        have hfirst : ¬first.terminal = .identifier word := by
          rw [← Token.isWord_iff, hplain word hword first rfl]
          simp
        by_cases hend : first.kind = .eof <;> simp [Token.beforeEnd, hend, hfirst]

/-- Declarations that a builder takes one by one, together with top-level code, are a script with
the same program. -/
theorem compile_script {natives : List (Builtin ν)} (hmain : Token.Stream main)
    (hplain : ∀ word ∈ declarationWords, ∀ token ∈ main.head?, token.isWord word = false)
    {program : Program ν} {events events' : Array Event}
    (hbuild : build natives drafts main events = .ok program events') (before : Array Event) :
    ∃ after, Script.compile natives (script drafts main) before = .ok program after := by
  obtain ⟨start, _, hlift, hdrafts⟩ := bind_eq_ok.1 hbuild
  have hstart := Builder.holds_ofBuiltins (liftM_eq_ok.1 hlift).1
  obtain ⟨builder, _, hadd, hprogram⟩ := bind_eq_ok.1 hdrafts
  obtain ⟨placed, declared, hholds, hwords, hdefines⟩ := hstart.addAll hadd
  rw [List.nil_append] at hholds
  obtain ⟨block, _, _, hblock, hlayout⟩ := hholds.layout.build hprogram
  obtain ⟨_, _, _, -, hparts⟩ := Builder.buildOfItems_ok hprogram
  let tree : Script.Tree := ⟨placed.map (·.definition), block⟩
  have hglobals : program.globals = tree.globals natives := by
    rw [hparts]
    refine congrArg SlotTable.mk (hholds.globals.trans ?_)
    simp [tree]
  -- the same tree is read from the script
  have htree : ∃ after, Script.tree (script drafts main) before = .ok tree after := by
    rw [(written_script hmain hplain hwords).tree_iff before]
    obtain ⟨derivation, hadmits, hblock, -⟩ := Build.block_ok hblock
    have hparses := hmain.parses hadmits
    refine ⟨hdefines, _, derivation, rfl, ?_, hblock⟩
    rwa [takeWhile_body hparses.isEnclosed]
  obtain ⟨middle, htree⟩ := htree
  have hdistinct : (tree.globals natives).names.Nodup := by
    rw [← hglobals, hparts]
    exact hholds.layout.tidy.distinct
  obtain ⟨after, hcompile⟩ := Script.compile_eq_program htree hdistinct
  have hmemory : program.memory.toList = natives.map Value.builtin ++ placed.map Placed.value := by
    rw [hparts, hholds.memory]
  rw [Script.Tree.program_eq hglobals hmemory hlayout]
  exact ⟨after, hcompile⟩

theorem compile_script_with_loop :
    ∃ (drafts : List Draft) (main : List Token) (program : Program Native)
      (events events' : Array Event), Token.Stream main ∧
      (∀ word ∈ declarationWords, ∀ token ∈ main.head?, token.isWord word = false) ∧
      build Native.builtins drafts main #[] = .ok program events ∧
      script drafts main =
        "var x int func f ( n int ) int \x7b while x < n \x7b x = x + 1 \x7d  \x7d " ++
          "var s string f ( 3 ) s = 'a \"b\"' " ∧
      Script.compile Native.builtins (script drafts main) #[] = .ok program events' := by
  let body : List Token :=
    [⟨.identifier, "while", 1⟩, ⟨.identifier, "x", 1⟩, ⟨.operator, "<", 1⟩, ⟨.identifier, "n", 1⟩,
      ⟨.punctuation, "\x7b", 1⟩, ⟨.identifier, "x", 2⟩, ⟨.assign, "=", 2⟩, ⟨.identifier, "x", 2⟩,
      ⟨.operator, "+", 2⟩, ⟨.number, "1", 2⟩, ⟨.punctuation, "\x7d", 2⟩, .eof 2]
  let main : List Token :=
    [⟨.identifier, "f", 1⟩, ⟨.punctuation, "(", 1⟩, ⟨.number, "3", 1⟩, ⟨.punctuation, ")", 1⟩,
      ⟨.identifier, "s", 1⟩, ⟨.assign, "=", 1⟩, ⟨.string, "a \"b\"", 1⟩, .eof 1]
  have hbody : Token.tokenize "while x < n \x7b\n  x = x + 1 \x7d" = .ok body := by cbv
  have hmain : Token.tokenize "f(3) s = 'a \"b\"'" = .ok main := by cbv
  have hstream := Token.Stream.of_tokenize hmain
  have hplain : ∀ word ∈ declarationWords, ∀ token ∈ main.head?, token.isWord word = false := by
    decide
  let drafts : List Draft :=
    [.variable "x" (by decide) .int rfl,
      .function "f" (by decide) [⟨"n", .int⟩] (by decide) (some .int) (by decide) body
        (.of_tokenize hbody),
      .variable "s" (by decide) .string rfl]
  let func : Func := ⟨"f", [.int], some .int, 0, ⟨[⟨"n", .int⟩]⟩⟩
  let program : Program Native :=
    { code := #[.loadGlobal "x", .loadLocal 0 .int, .binary .lt, .jumpIfZero 10, .loadGlobal "x",
        .push (.int 1), .binary .add, .assignGlobal "x", .push (.int 0), .jumpIfZero 0, .ret,
        .loadGlobal "f", .push (.int 3), .invoke 1, .push (.str "a \"b\""), .assignGlobal "s"]
      globals := ⟨[⟨"print_one", .builtin⟩, ⟨"print_all", .builtin⟩, ⟨"print_sum", .builtin⟩,
        ⟨"done", .builtin⟩, ⟨"x", .int⟩, ⟨"f", .function⟩, ⟨"s", .string⟩]⟩
      memory := #[.builtin Native.printOne.builtin, .builtin Native.printAll.builtin,
        .builtin Native.printSum.builtin, .builtin Native.done.builtin, .int 0, .function func,
        .str ""]
      entry := 11 }
  have hbuild : build Native.builtins drafts main #[] =
      .ok program #[.jumpSettled 3 10, .functionCompiled "f" 0 11 1, .mainCompiled 11 16] := by cbv
  obtain ⟨after, hcompile⟩ := compile_script hstream hplain hbuild #[]
  exact ⟨drafts, main, program, _, after, hstream, hplain, hbuild, by cbv, hcompile⟩

end Draft

end StackScript
