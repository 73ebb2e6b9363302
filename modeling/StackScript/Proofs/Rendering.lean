import StackScript.Proofs.LexicalGrammar

/-!
# Reading what was rendered

Tokens that are written out with spaces between them are read as the same tokens, but for their
lines. This is so for every list of tokens that texts can have, whether or not they come from one
text.
-/

namespace StackScript.Token

/-- All of a token but its line. -/
def content (token : Token) : TokenKind × String :=
  (token.kind, token.text)

/-- Some text has this token. -/
def Produced (token : Token) : Prop :=
  ∃ source tokens, tokenize source = .ok tokens ∧ token ∈ tokens

/-- The text of the token is that of a lexeme of its kind. -/
def Lexical (token : Token) : Prop :=
  ∃ after written, Lexeme after written token.kind token.text.toList

/-- Tokens as they are written in a script, with spaces between them. -/
def renderAll (tokens : List Token) : String :=
  " ".intercalate (tokens.map render)

theorem lexical_of_mem_pieceTokens {text rest before : List Char} {pieces : List Piece}
    (h : Divides text pieces rest) {token : Token} (hmem : token ∈ pieceTokens before pieces) :
    token.Lexical := by
  induction h generalizing before with
  | nil => cases hmem
  | cons _ lexeme _ ih =>
      rcases List.mem_cons.1 hmem with rfl | hmem
      · exact ⟨_, _, by rwa [String.toList_ofList]⟩
      · exact ih hmem

/-- No lexeme is an end token. -/
theorem Lexeme.kind_ne_eof {after written text : List Char} {kind : TokenKind}
    (h : Lexeme after written kind text) : kind ≠ .eof := by
  cases h <;> simp

theorem Lexical.kind_ne_eof {token : Token} (h : token.Lexical) : token.kind ≠ .eof := by
  obtain ⟨_, _, hlexeme⟩ := h
  exact hlexeme.kind_ne_eof

/-- A token that some text has is an end token or that of a lexeme. -/
theorem Produced.lexical {token : Token} (h : token.Produced) :
    token.kind = .eof ∨ token.Lexical := by
  obtain ⟨source, tokens, htokens, hmem⟩ := h
  obtain ⟨pieces, rest, hdivides, -, rfl⟩ := divides_of_tokenize htokens
  rcases List.mem_append.1 hmem with hmem | hend
  · exact .inr (lexical_of_mem_pieceTokens hdivides hmem)
  · rw [List.mem_singleton.1 hend]
    exact .inl rfl

/-- The pieces of a text are its tokens but for the end token. -/
theorem filter_pieceTokens {text rest : List Char} {pieces : List Piece}
    (h : Divides text pieces rest) (line : Nat) :
    (pieceTokens [] pieces ++ [eof line]).filter (·.kind ≠ .eof) = pieceTokens [] pieces := by
  have hpieces : (pieceTokens [] pieces).filter (·.kind ≠ .eof) = pieceTokens [] pieces := by
    rw [List.filter_eq_self]
    intro token hmem
    exact decide_eq_true (lexical_of_mem_pieceTokens h hmem).kind_ne_eof
  rw [List.filter_append, hpieces]
  exact List.append_nil _

/-- A text with a lexical error has tokens in front of it, and none of them ends the input. -/
theorem scan_of_tokenize_error {source : String} {error : LexError}
    (h : tokenize source = .error error) :
    ∃ tokens : List Token, scan source = tokens.map .ok ++ [.error error] ∧
      ∀ token ∈ tokens, token.kind ≠ .eof := by
  obtain ⟨pieces, rest, hdivides, hends⟩ := exists_divides source.toList
  rcases hends with hrest | ⟨blanks, first, more, rfl, hblanks, hfirst, hunlexed⟩
  · cases h.symm.trans (tokenize_of_divides hdivides hrest)
  · have hitems := hdivides.items_eq []
    rw [Scanner.items_of_unlexed hblanks (by simpa [blanks_singleton] using hfirst) hunlexed]
      at hitems
    obtain rfl := Except.error.inj (h.symm.trans (tokenize_of_error hitems))
    refine ⟨_, hitems, fun token hmem => ?_⟩
    exact (lexical_of_mem_pieceTokens hdivides hmem).kind_ne_eof

/-- A rendered string stands between quotes that are not in it. -/
theorem exists_quote {text : List Char} {quote : Char} (hquote : quote ∈ ['"', '\x27'])
    (hinside : quote ∉ text) (line : Nat) :
    ∃ quote' ∈ ['"', '\x27'], quote' ∉ text ∧
      (render ⟨.string, String.ofList text, line⟩).toList = quote' :: (text ++ [quote']) := by
  by_cases hdouble : '"' ∈ text
  · refine ⟨'\x27', by simp, ?_, by simp [render, hdouble]⟩
    -- the quote that the text was read between is the other one
    have hother : quote = '\x27' := by
      have hne : quote ≠ '"' := fun heq => hinside (heq ▸ hdouble)
      simpa [hne] using hquote
    exact hother ▸ hinside
  · exact ⟨'"', by simp, hdouble, by simp [render, hdouble]⟩

/-- A rendered token is a lexeme again if a space or nothing follows it. -/
theorem Lexical.lexeme {token : Token} (h : token.Lexical) {after : List Char}
    (hafter : ∀ c ∈ after.head?, c = ' ') :
    Lexeme after token.render.toList token.kind token.text.toList := by
  obtain ⟨kind, text, line⟩ := token
  obtain ⟨_, written, hlexeme⟩ := h
  obtain ⟨chars, rfl⟩ : ∃ chars, text = String.ofList chars := ⟨_, String.ofList_toList.symm⟩
  rw [String.toList_ofList] at hlexeme ⊢
  have hsign : after.head? ≠ some '=' := fun heq => by cases hafter '=' heq
  cases hlexeme with
  | number starts goesOn _ =>
      rw [render, String.toList_ofList]
      refine .number starts goesOn fun c hc => ?_
      rw [hafter c hc]
      decide
  | word starts goesOn _ =>
      rw [render, String.toList_ofList]
      refine .word starts goesOn fun c hc => ?_
      rw [hafter c hc]
      decide
  | compound starts =>
      rw [render, String.toList_ofList]
      exact .compound starts
  | operator starts _ =>
      rw [render, String.toList_ofList]
      exact .operator starts hsign
  | assign _ =>
      rw [render, String.toList_ofList]
      exact .assign hsign
  | string quotes inside =>
      obtain ⟨quote, hquote, hinside, hrender⟩ := exists_quote quotes inside line
      rw [hrender]
      exact .string hquote hinside
  | mark marks =>
      rw [render, String.toList_ofList]
      exact .mark marks

/-- What follows the first rendered token: a space and the other tokens, or nothing. -/
theorem exists_gap (first : Token) (rest : List Token) :
    ∃ gap, Blanks gap ∧
      (renderAll (first :: rest)).toList =
        first.render.toList ++ (gap ++ (renderAll rest).toList) ∧
      ∀ c ∈ (gap ++ (renderAll rest).toList).head?, c = ' ' := by
  cases rest with
  | nil =>
      refine ⟨[], by simp [Blanks], ?_, ?_⟩ <;> simp [renderAll]
  | cons second rest =>
      refine ⟨[' '], by simp [Blanks], ?_, by simp⟩
      simp [renderAll, String.toList_intercalate]

theorem map_content_pieceTokens (before : List Char) (pieces : List Piece) :
    (pieceTokens before pieces).map content =
      pieces.map fun piece => (piece.kind, String.ofList piece.text) := by
  induction pieces generalizing before with
  | nil => rfl
  | cons first rest ih => exact congrArg (_ :: ·) (ih _)

/-- Rendered tokens are the pieces of their text. An end token is rendered as nothing, so the blanks
around it come before the next piece. -/
theorem divides_renderAll {tokens : List Token}
    (h : ∀ token ∈ tokens, token.kind = .eof ∨ token.Lexical) {blanks : List Char}
    (hblanks : Blanks blanks) :
    ∃ pieces rest, Divides (blanks ++ (renderAll tokens).toList) pieces rest ∧ Blanks rest ∧
      pieces.map (fun piece => (piece.kind, String.ofList piece.text)) =
        (tokens.filter (·.kind ≠ .eof)).map content := by
  induction tokens generalizing blanks with
  | nil => exact ⟨[], blanks, by simpa [renderAll] using Divides.nil, hblanks, rfl⟩
  | cons first rest ih =>
      obtain ⟨hfirst, hrest⟩ := List.forall_mem_cons.1 h
      obtain ⟨gap, hgap, htext, hhead⟩ := exists_gap first rest
      rw [htext]
      by_cases hend : first.kind = .eof
      · have hnothing : first.render.toList = [] := by
          rw [render, hend]
          rfl
        have hboth : Blanks (blanks ++ gap) := by
          intro c hc
          exact (List.mem_append.1 hc).elim (hblanks c) (hgap c)
        rw [hnothing, List.nil_append, ← List.append_assoc,
          List.filter_cons_of_neg (by simp [hend])]
        exact ih hrest hboth
      · obtain ⟨pieces, last, hdivides, hlast, hpieces⟩ := ih hrest hgap
        have hlexeme := (hfirst.resolve_left hend).lexeme hhead
        let piece : Piece := ⟨blanks, first.render.toList, first.kind, first.text.toList⟩
        have hpiece : Lexeme (gap ++ (renderAll rest).toList) piece.written piece.kind piece.text :=
          hlexeme
        refine ⟨piece :: pieces, last, .cons hblanks hpiece hdivides, hlast, ?_⟩
        rw [List.map_cons, hpieces, List.filter_cons_of_pos (by simp [hend]), List.map_cons,
          String.ofList_toList]
        rfl

/-- Rendered tokens are read as the tokens they are, but for their lines; end tokens are left out,
and one of them comes last. -/
theorem tokenize_renderAll {tokens : List Token}
    (h : ∀ token ∈ tokens, token.kind = .eof ∨ token.Lexical) :
    ∃ read, tokenize (renderAll tokens) = .ok read ∧
      read.map content = (tokens.filter (·.kind ≠ .eof)).map content ++ [(.eof, "")] := by
  obtain ⟨pieces, rest, hdivides, hrest, hpieces⟩ :=
    divides_renderAll h (List.forall_mem_nil _ : Blanks [])
  refine ⟨_, tokenize_of_divides hdivides hrest, ?_⟩
  rw [List.map_append, map_content_pieceTokens, hpieces]
  rfl

end StackScript.Token
