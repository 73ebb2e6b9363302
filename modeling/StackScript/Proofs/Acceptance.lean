import Mathlib.Data.List.TakeWhile
import StackScript.Builder
import StackScript.Proofs.ParserCompleteness

/-!
# Exactly the derivable blocks compile

A block compiles if and only if the tokens before the end of the input have a derivation that keeps
to the nesting limit and declares its locals properly. The derivation is unique, and the code that
is appended is the code of its tree.
-/

namespace StackScript

open Grammar StackScript.Parser

/-- The tokens before the first one that ends the input. -/
def Token.beforeEnd (tokens : List Token) : List Token :=
  tokens.takeWhile (·.kind ≠ .eof)

/-- A derivation of tokens that the compiler has to accept. -/
structure Grammar.Derives (tokens : List Token) (locals : Option SlotTable)
    (derivation : List Statement) : Prop where
  spells : blockWord derivation = (Token.beforeEnd tokens).map Token.terminal
  declares : BlockDeclares locals derivation
  nesting : blockDepth derivation ≤ nestingLimit

/-- A derivation of a stream of items up to the end of its input. -/
structure Grammar.Admits (items : List Item) (locals : Option SlotTable)
    (derivation : List Statement) : Prop where
  spells : ∃ rest, Spells items (blockWord derivation) rest ∧ lookahead rest = some .endOfInput
  declares : BlockDeclares locals derivation
  nesting : blockDepth derivation ≤ nestingLimit

namespace Grammar

mutual

theorem Expression.endOfInput_notMem (expression : Expression) :
    Terminal.endOfInput ∉ expression.word := by
  cases expression with
  | plain term calls =>
      have hcalls := callWord_endOfInput_notMem calls
      cases term <;> simp [Expression.word, Term.terminal, hcalls]
  | operation term calls operator right =>
      have hcalls := callWord_endOfInput_notMem calls
      have hright := right.endOfInput_notMem
      cases term <;> simp [Expression.word, Term.terminal, hcalls, hright]

theorem callWord_endOfInput_notMem (calls : List (List Expression)) :
    Terminal.endOfInput ∉ callWord calls := by
  match calls with
  | [] => simp [callWord]
  | arguments :: rest =>
      have harguments := argumentWord_endOfInput_notMem arguments
      have hrest := callWord_endOfInput_notMem rest
      simp [callWord, harguments, hrest]

theorem argumentWord_endOfInput_notMem (arguments : List Expression) :
    Terminal.endOfInput ∉ argumentWord arguments := by
  match arguments with
  | [] => simp [argumentWord]
  | [last] => simpa [argumentWord] using last.endOfInput_notMem
  | first :: next :: rest =>
      have hfirst := first.endOfInput_notMem
      have hrest := argumentWord_endOfInput_notMem (next :: rest)
      simp [argumentWord, hfirst, hrest]

end

mutual

theorem Statement.endOfInput_notMem (statement : Statement) :
    Terminal.endOfInput ∉ statement.word := by
  cases statement with
  | empty | ret | declare name type declarable => simp [Statement.word]
  | branch test body | loop test body =>
      have htest := test.endOfInput_notMem
      have hbody := blockWord_endOfInput_notMem body
      simp [Statement.word, htest, hbody]
  | assign name free value =>
      have hvalue := value.endOfInput_notMem
      simp [Statement.word, hvalue]
  | evaluate term free calls =>
      have hcalls := callWord_endOfInput_notMem calls
      cases term <;> simp [Statement.word, Term.terminal, hcalls]

/-- The end of the input is no part of a block. -/
theorem blockWord_endOfInput_notMem (block : List Statement) :
    Terminal.endOfInput ∉ blockWord block := by
  match block with
  | [] => simp [blockWord]
  | first :: rest =>
      have hfirst := first.endOfInput_notMem
      have hrest := blockWord_endOfInput_notMem rest
      simp [blockWord, hfirst, hrest]

end

end Grammar

namespace Token

theorem number_of_lexeme {line : Nat} {first : Char} {rest after : List Char} {token : Token}
    (h : lexeme line first rest = .ok (token, after)) (hkind : token.kind = .number) :
    first.isDigit = true ∧ token.text = String.ofList (first :: rest.takeWhile isNumberPart) := by
  unfold lexeme at h
  repeat' split at h
  all_goals simp only [reduceCtorEq, Except.ok.injEq, Prod.mk.injEq] at h
  all_goals obtain ⟨rfl, -⟩ := h
  case isTrue hdigit => exact ⟨hdigit, rfl⟩
  all_goals simp at hkind

theorem lexeme_of_next? {scanner after : Scanner} {token : Token}
    (h : scanner.next? = some (.ok token, after)) (hkind : token.kind ≠ .eof) :
    ∃ line first rest rest', lexeme line first rest = .ok (token, rest') := by
  cases scanner with
  | finished => simp [Scanner.next?] at h
  | reading line text =>
      simp only [Scanner.next?] at h
      split at h
      · simp only [Option.some.injEq, Prod.mk.injEq, Except.ok.injEq] at h
        exact absurd (h.1 ▸ rfl) hkind
      · split at h
        · simp at h
        next _ _ hlexeme =>
          simp only [Option.some.injEq, Prod.mk.injEq, Except.ok.injEq] at h
          exact ⟨_, _, _, _, h.1 ▸ hlexeme⟩

/-- A number that was scanned is a digit with digits and dots after it. -/
theorem number_of_mem_take {count : Nat} {scanner : Scanner} {token : Token}
    (h : (.ok token : Item) ∈ scanner.take count) (hkind : token.kind = .number) :
    ∃ first rest, first.isDigit = true ∧ (∀ c ∈ rest, isNumberPart c = true) ∧
      token.text = String.ofList (first :: rest) := by
  induction count generalizing scanner with
  | zero => simp [Scanner.take] at h
  | succ count ih =>
      unfold Scanner.take at h
      cases hnext : scanner.next? with
      | none => simp [hnext] at h
      | some front =>
          obtain ⟨item, after⟩ := front
          simp only [hnext, List.mem_cons] at h
          rcases h with rfl | h
          · obtain ⟨line, first, rest, rest', hlexeme⟩ := lexeme_of_next? hnext (by simp [hkind])
            obtain ⟨hfirst, htext⟩ := number_of_lexeme hlexeme hkind
            exact ⟨first, _, hfirst, fun c hc => List.mem_takeWhile_imp hc, htext⟩
          · exact ih h

end Token

namespace Parser

theorem lookahead_of_next {state state' : State} {token : Token}
    (h : next state = .ok token state') : lookahead state.rest = some token.terminal := by
  unfold next at h
  cases hrest : state.rest with
  | nil =>
      simp only [hrest] at h
      injection h with h _
      subst h
      rfl
  | cons item rest =>
      cases item <;> simp only [hrest] at h
      case error => cases h
      case ok =>
        injection h with h _
        subst h
        rfl

theorem lookahead_dropWhile (tokens : List Token) :
    lookahead ((tokens.dropWhile (·.kind ≠ .eof)).map .ok) = some .endOfInput := by
  induction tokens with
  | nil => rfl
  | cons token rest ih =>
      by_cases hkind : token.kind = .eof
      · rw [List.dropWhile_cons_of_neg (by simpa using hkind)]
        exact congrArg some (Token.kind_eq_eof_iff.1 hkind)
      · rw [List.dropWhile_cons_of_pos (by simpa using hkind)]
        exact ih

/-- A word without the end of the input is spelled by all tokens before that end. -/
theorem beforeEnd_eq {tokens taken : List Token} {rest : List Item}
    (h : tokens.map (.ok : Token → Item) = taken.map .ok ++ rest)
    (hrest : lookahead rest = some .endOfInput)
    (htaken : Terminal.endOfInput ∉ taken.map Token.terminal) :
    Token.beforeEnd tokens = taken := by
  induction taken generalizing tokens with
  | nil =>
      rw [List.map_nil, List.nil_append] at h
      subst h
      cases tokens with
      | nil => rfl
      | cons token rest =>
          have hkind := Token.kind_eq_eof_iff.2 (Option.some.inj hrest)
          exact List.takeWhile_cons_of_neg (by simpa using hkind)
  | cons first others ih =>
      obtain ⟨token, tokens, rfl, htoken, htail⟩ := List.map_eq_cons_iff.1 h
      obtain rfl := Except.ok.inj htoken
      simp only [List.map_cons, List.mem_cons, not_or] at htaken
      have hkind : token.kind ≠ .eof := fun hkind =>
        htaken.1 (Token.kind_eq_eof_iff.1 hkind).symm
      rw [Token.beforeEnd, List.takeWhile_cons_of_pos (by simpa using hkind)]
      exact congrArg (token :: ·) (ih htail htaken.2)

theorem integer?_of_isDigit {first : Char} (rest : List Char) (hfirst : first.isDigit = true) :
    integer? (first :: rest) = (digits? (first :: rest)).bind fun n =>
      if n < integerLimit then some (Int64.ofNat n) else none := by
  unfold integer?
  split
  next h => simp_all [Char.isDigit]
  next h => simp_all [Char.isDigit]
  next => rfl

/-- The value of digits that go on with digits and dots is that of the part before the first dot, if
that fits into 64 bits. -/
theorem numberValue?_eq {first : Char} {rest : List Char}
    (hfirst : first.isDigit = true) (hrest : ∀ c ∈ rest, Token.isNumberPart c = true) :
    numberValue? (String.ofList (first :: rest)) =
      if Nat.ofDigitChars 10 ((first :: rest).takeWhile (· ≠ '.')) 0 < integerLimit then
        some (Int64.ofNat (Nat.ofDigitChars 10 ((first :: rest).takeWhile (· ≠ '.')) 0))
      else none := by
  have hdot : first ≠ '.' := by
    rintro rfl
    simp [Char.isDigit] at hfirst
  have hdigits : ∀ c ∈ rest.takeWhile (· ≠ '.'), c.isDigit = true := by
    intro c hc
    have hpart := hrest c (List.takeWhile_subset _ hc)
    have hne := List.mem_takeWhile_imp hc
    simp only [Token.isNumberPart, Bool.or_eq_true, decide_eq_true_eq] at hpart hne
    exact hpart.resolve_right hne
  have hvalue : digits? (first :: rest.takeWhile (· ≠ '.')) =
      some (Nat.ofDigitChars 10 (first :: rest.takeWhile (· ≠ '.')) 0) := by
    rw [digits?, if_pos ⟨by simp, by simpa [hfirst] using hdigits⟩, Nat.ofDigitChars_eq_foldl]
  rw [numberValue?, String.toList_ofList, List.takeWhile_cons_of_pos (by simpa using hdot),
    integer?_of_isDigit _ hfirst, hvalue, Option.bind_some]

/-- Digits that go on with digits and dots have a value exactly if the part before the first dot
fits into 64 bits. -/
theorem exists_numberValue?_iff {first : Char} {rest : List Char}
    (hfirst : first.isDigit = true) (hrest : ∀ c ∈ rest, Token.isNumberPart c = true) :
    (∃ value, numberValue? (String.ofList (first :: rest)) = some value) ↔
      Nat.ofDigitChars 10 ((first :: rest).takeWhile (· ≠ '.')) 0 < integerLimit := by
  rw [numberValue?_eq hfirst hrest]
  split <;> simp_all

end Parser

namespace Build

variable {code : Array Instruction} {items : List Item} {locals : Option SlotTable}
  {events events' : Array Event}

theorem parse_eq_ok {α : Type} {parser : Parser α} {result : α} {state : State} :
    parse items locals parser events = .ok (result, state) events' ↔
      parser { rest := items, locals, events } = .ok result state ∧ events' = state.events := by
  unfold parse
  cases parser { rest := items, locals, events } with
  | ok value reached =>
      simp only [EStateM.Result.ok.injEq, Prod.mk.injEq]
      constructor
      · rintro ⟨⟨rfl, rfl⟩, rfl⟩
        exact ⟨⟨rfl, rfl⟩, rfl⟩
      · rintro ⟨⟨rfl, rfl⟩, rfl⟩
        exact ⟨⟨rfl, rfl⟩, rfl⟩
  | error error reached => simp

/-- A block is read as the parser reads it. -/
theorem block_eq_ok {start : Nat} {tree : Block} {locals' : Option SlotTable} :
    block items locals start events = .ok (tree, locals') events' ↔
      ∃ state, wholeBlock items.length start { rest := items, locals, events } = .ok tree state ∧
        locals' = state.locals ∧ events' = state.events := by
  unfold block
  constructor
  · intro h
    obtain ⟨⟨tree, state⟩, _, hparse, hpure⟩ := bind_eq_ok.1 h
    obtain ⟨hwhole, rfl⟩ := parse_eq_ok.1 hparse
    obtain ⟨hresult, rfl⟩ := pure_eq_ok.1 hpure
    cases hresult
    exact ⟨state, hwhole, rfl, rfl⟩
  · rintro ⟨state, hparse, rfl, rfl⟩
    exact bind_eq_ok.2 ⟨_, _, parse_eq_ok.2 ⟨hparse, rfl⟩, rfl⟩

theorem block_ok {start : Nat} {tree : Block} {locals' : Option SlotTable}
    (h : block items locals start events = .ok (tree, locals') events') :
    ∃ derivation, Admits items locals derivation ∧ tree = blockTree locals derivation ∧
      locals' = blockLocalsAfter locals derivation := by
  obtain ⟨state, hparse, rfl, -⟩ := block_eq_ok.1 h
  obtain ⟨derivation, middle, token, hreads, hnext, hend, hdepth, htree⟩ :=
    wholeBlock_ok hparse (Nat.le_refl _)
  have hlocals : state.locals = middle.locals := by
    rcases next_ok hnext with hpasses | ⟨-, rfl, -⟩
    · exact hpasses.locals
    · rfl
  refine ⟨derivation, ⟨⟨_, hreads.takes, ?_⟩, hreads.declares, hdepth⟩, htree,
    hlocals.trans hreads.locals⟩
  exact hend ▸ lookahead_of_next hnext

/-- A stream of items is read as the tree of its derivation, wherever the code will stand. -/
theorem block_of_admits {derivation : List Statement} (h : Admits items locals derivation)
    (start : Nat) (events : Array Event) :
    ∃ events', block items locals start events =
      .ok (blockTree locals derivation, blockLocalsAfter locals derivation) events' := by
  obtain ⟨rest, hspells, hend⟩ := h.spells
  let state : State := { rest := items, locals, events }
  have hyields : Yields (wholeBlock items.length start) state _ _ _ :=
    wholeBlock_yields derivation hspells hend h.declares h.nesting (Nat.le_refl _)
  obtain ⟨state', hparse, -, hlocals⟩ := hyields
  exact ⟨_, block_eq_ok.2 ⟨state', hparse, hlocals.symm, rfl⟩⟩

/-- What is appended is the code of the block that is read. -/
theorem append_eq_ok {result : Array Instruction × Option SlotTable} :
    append code items locals events = .ok result events' ↔
      ∃ tree locals', block items locals code.size events = .ok (tree, locals') events' ∧
        result = (code ++ (Block.code code.size tree).toArray, locals') := by
  unfold append
  constructor
  · intro h
    obtain ⟨⟨tree, locals'⟩, _, hblock, hpure⟩ := bind_eq_ok.1 h
    obtain ⟨rfl, rfl⟩ := pure_eq_ok.1 hpure
    exact ⟨tree, locals', hblock, rfl⟩
  · rintro ⟨tree, locals', hblock, rfl⟩
    exact bind_eq_ok.2 ⟨_, _, hblock, rfl⟩

theorem admits_iff_derives {tokens : List Token} {derivation : List Statement} :
    Admits (tokens.map .ok) locals derivation ↔ Derives tokens locals derivation := by
  constructor
  · intro h
    obtain ⟨rest, ⟨taken, hrest, htaken⟩, hend⟩ := h.spells
    refine ⟨?_, h.declares, h.nesting⟩
    rw [beforeEnd_eq hrest hend (htaken ▸ blockWord_endOfInput_notMem derivation), htaken]
  · intro h
    refine ⟨⟨(tokens.dropWhile (·.kind ≠ .eof)).map .ok, ⟨Token.beforeEnd tokens, ?_, ?_⟩,
      lookahead_dropWhile tokens⟩, h.declares, h.nesting⟩
    · rw [← List.map_append, Token.beforeEnd, List.takeWhile_append_dropWhile]
    · exact h.spells.symm

/-- Code is appended only for tokens that have a derivation. -/
theorem derives_of_append {tokens : List Token} {result : Array Instruction × Option SlotTable}
    (h : append code (tokens.map .ok) locals events = .ok result events') :
    ∃ derivation, Derives tokens locals derivation := by
  obtain ⟨tree, locals', hblock, -⟩ := append_eq_ok.1 h
  obtain ⟨derivation, hadmits, -⟩ := block_ok hblock
  exact ⟨derivation, admits_iff_derives.1 hadmits⟩

/-- Tokens that have a derivation compile to the code of its tree. -/
theorem append_of_derives {tokens : List Token} {derivation : List Statement}
    (h : Derives tokens locals derivation) (code : Array Instruction) (events : Array Event) :
    ∃ events', append code (tokens.map .ok) locals events =
      .ok (code ++ (Block.code code.size (blockTree locals derivation)).toArray,
        blockLocalsAfter locals derivation) events' := by
  obtain ⟨events', hblock⟩ := block_of_admits (admits_iff_derives.2 h) code.size events
  exact ⟨_, append_eq_ok.2 ⟨_, _, hblock, rfl⟩⟩

/-- Compiling a block succeeds exactly on the tokens that have a derivation within the limits.
Derivations are unique, and the code that is appended is the code of the derivation's tree. A
number that was scanned is a term exactly if its integer part fits into 64 bits. -/
theorem append_ok_iff_derives (code : Array Instruction) (tokens : List Token)
    (locals : Option SlotTable) (events : Array Event) :
    ((∃ result events', append code (tokens.map .ok) locals events = .ok result events') ↔
      ∃ derivation, Derives tokens locals derivation) ∧
    (∀ derivation other : List Statement,
      blockWord derivation = blockWord other → derivation = other) ∧
    (∀ derivation, Derives tokens locals derivation →
      ∃ events', append code (tokens.map .ok) locals events =
        .ok (code ++ (Block.code code.size (blockTree locals derivation)).toArray,
          blockLocalsAfter locals derivation) events') ∧
    (∀ source token, .ok token ∈ Token.scan source → token.kind = .number →
      ((∃ value, numberValue? token.text = some value) ↔
        Nat.ofDigitChars 10 (token.text.toList.takeWhile (· ≠ '.')) 0 < 9223372036854775808)) := by
  refine ⟨⟨?_, ?_⟩, ?_, ?_, ?_⟩
  · rintro ⟨result, events', h⟩
    exact derives_of_append h
  · rintro ⟨derivation, h⟩
    obtain ⟨events', happend⟩ := append_of_derives h code events
    exact ⟨_, events', happend⟩
  · intro derivation other h
    exact blockWord_injective h
  · intro derivation h
    exact append_of_derives h code events
  · intro source token hscan hkind
    obtain ⟨first, rest, hfirst, hrest, htext⟩ := Token.number_of_mem_take hscan hkind
    rw [htext, exists_numberValue?_iff hfirst hrest, String.toList_ofList, integerLimit]

end Build

end StackScript
