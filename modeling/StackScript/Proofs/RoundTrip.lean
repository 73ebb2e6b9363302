import Mathlib.Data.List.Basic
import StackScript.Proofs.LineIndependence

/-!
# Writing tokens out and reading them again

A text that can be read is written out again with one space between its tokens, and each string in
quotes that it does not hold. The written text has the tokens of the first one but for their lines,
so writing it out once more changes nothing, and a script compiles to the same program before and
after.
-/

namespace StackScript

variable {ν : Type}

namespace Token

/-- The text with one space between its tokens. -/
def reformat (source : String) : Except LexError String :=
  (tokenize source).map fun tokens => renderAll (tokens.filter (·.kind ≠ .eof))

theorem reformat_of_tokenize {source : String} {tokens : List Token}
    (h : tokenize source = .ok tokens) :
    reformat source = .ok (renderAll (tokens.filter (·.kind ≠ .eof))) := by
  rw [reformat, h]
  rfl

/-- How tokens are written does not depend on their lines. -/
theorem renderAll_of_content {left right : List Token} (h : left.map content = right.map content) :
    renderAll (left.filter (·.kind ≠ .eof)) = renderAll (right.filter (·.kind ≠ .eof)) := by
  let visible : TokenKind × String → Bool := fun pair => pair.1 ≠ .eof
  have hrender : render = (fun pair => render ⟨pair.1, pair.2, 0⟩) ∘ content := rfl
  have hfilter : ∀ tokens : List Token,
      (tokens.filter (·.kind ≠ .eof)).map content = (tokens.map content).filter visible := by
    intro tokens
    rw [List.filter_map]
    rfl
  rw [renderAll, renderAll, hrender, ← List.map_map, ← List.map_map, hfilter, hfilter, h]

/-- The tokens of a text end with the only end token. -/
theorem content_of_tokenize {source : String} {tokens : List Token}
    (h : tokenize source = .ok tokens) :
    tokens.map content = (tokens.filter (·.kind ≠ .eof)).map content ++ [(.eof, "")] := by
  obtain ⟨pieces, rest, hdivides, -, rfl⟩ := divides_of_tokenize h
  rw [filter_pieceTokens hdivides, List.map_append]
  rfl

/-- A token that is written alone is read as that token, on the first line. -/
theorem Lexical.tokenize_render {token : Token} (h : token.Lexical) :
    tokenize token.render =
      .ok [{ token with line := 1 }, .eof (lineAfter token.text.toList)] := by
  have hlexeme : Lexeme [] token.render.toList token.kind token.text.toList := h.lexeme (by simp)
  let piece : Piece := ⟨[], token.render.toList, token.kind, token.text.toList⟩
  have hpiece : Lexeme [] piece.written piece.kind piece.text := hlexeme
  have hblanks : Blanks piece.blanks := by simp [Blanks, piece]
  have hdivides : Divides token.render.toList [piece] [] := by
    simpa [piece] using Divides.cons hblanks hpiece .nil
  rw [tokenize_of_divides hdivides hblanks, lineAfter, lineAfter, hlexeme.lineEnds_eq]
  simp [pieceTokens, piece, lineAfter, lineEnds]

variable {source : String} {tokens : List Token}

/-- A text that can be read is read as the same tokens after it was written out again. -/
theorem exists_read_reformat (h : tokenize source = .ok tokens) :
    ∃ text read, reformat source = .ok text ∧ tokenize text = .ok read ∧
      read.map content = tokens.map content := by
  have hlexical : ∀ token ∈ tokens.filter (·.kind ≠ .eof), token.kind = .eof ∨ token.Lexical :=
    fun token hmem => Produced.lexical ⟨source, tokens, h, List.mem_of_mem_filter hmem⟩
  obtain ⟨read, hread, hcontent⟩ := tokenize_renderAll hlexical
  refine ⟨_, read, reformat_of_tokenize h, hread, ?_⟩
  rw [hcontent, content_of_tokenize h, List.filter_filter]
  simp

/-- Writing out what was written out gives the same text. -/
theorem reformat_reformat {text : String} (h : reformat source = .ok text) :
    reformat text = .ok text := by
  obtain ⟨tokens, htokens, rfl⟩ := map_eq_ok.1 h
  obtain ⟨text, read, htext, hread, hcontent⟩ := exists_read_reformat htokens
  rw [reformat_of_tokenize htokens] at htext
  obtain rfl := Except.ok.inj htext
  rw [reformat_of_tokenize hread, renderAll_of_content hcontent]

/-- Rendering undoes tokenizing. A text that can be read is written out as a text that has the same
tokens but for their lines, and so is each of its tokens; writing that text out again changes
nothing, and a script compiles to the same program in both forms. -/
theorem rendered_tokens_read_back (h : tokenize source = .ok tokens) :
    (∃ text read, text = renderAll (tokens.filter (·.kind ≠ .eof)) ∧ tokenize text = .ok read ∧
      read.map content = (tokens.filter (·.kind ≠ .eof)).map content ++ [(.eof, "")] ∧
      reformat source = .ok text ∧ reformat text = .ok text ∧
      ∀ (natives : List (Builtin ν)) (program : Program ν) (events events' : Array Event),
        Script.compile natives source events = .ok program events' →
        Script.compile natives text events = .ok program events') ∧
    ∀ token ∈ tokens, token.kind ≠ .eof →
      tokenize token.render =
        .ok [{ token with line := 1 }, .eof (lineAfter token.text.toList)] := by
  refine ⟨?_, ?_⟩
  · obtain ⟨text, read, htext, hread, hcontent⟩ := exists_read_reformat h
    have hrendered := Except.ok.inj (htext.symm.trans (reformat_of_tokenize h))
    refine ⟨text, read, hrendered, hread, ?_, htext, reformat_reformat htext, ?_⟩
    · rw [hcontent, content_of_tokenize h]
    · intro natives program events events' hcompile
      have halike : Items.Alike (scan source) (scan text) := by
        rw [tokenize_eq_ok.1 h, tokenize_eq_ok.1 hread]
        exact Items.Alike.of_content hcontent.symm
      have hends := Script.compile_parallel halike natives events events rfl
      rw [hcompile] at hends
      generalize Script.compile natives text events = outcome at hends
      cases hends with
      | ok hprogram hevents => rw [hprogram, hevents]
  · intro token hmem hkind
    have hlexical := Produced.lexical ⟨source, tokens, h, hmem⟩
    exact (hlexical.resolve_left hkind).tokenize_render

/-- A string with a quote and a line end in it, and a number with two dots. -/
theorem rendered_string_reads_back :
    ∃ (source text : String) (tokens : List Token) (program : Program Native)
      (events : Array Event),
      tokenize source = .ok tokens ∧ text = "x = '\"a\n' y = 1.2.3" ∧ text ≠ source ∧
      reformat source = .ok text ∧ reformat text = .ok text ∧
      Script.compile [] source #[] = .ok program events ∧
      Script.compile [] text #[] = .ok program events ∧
      tokenize (render ⟨.string, "\"a\n", 1⟩) = .ok [⟨.string, "\"a\n", 1⟩, .eof 2] := by
  let tokens : List Token :=
    [⟨.identifier, "x", 1⟩, ⟨.assign, "=", 1⟩, ⟨.string, "\"a\n", 1⟩, ⟨.identifier, "y", 2⟩,
      ⟨.assign, "=", 2⟩, ⟨.number, "1.2.3", 2⟩, .eof 2]
  let program : Program Native :=
    { code := #[.push (.str "\"a\n"), .assignGlobal "x", .push (.int 1), .assignGlobal "y"] }
  have htokens : tokenize "x='\"a\n'y=1.2.3" = .ok tokens := by cbv
  have hcompile : Script.compile [] "x='\"a\n'y=1.2.3" #[] = .ok program #[.mainCompiled 0 4] := by
    cbv
  obtain ⟨⟨text, read, htext, -, -, hreformat, hagain, hsame⟩, hsingle⟩ :=
    rendered_tokens_read_back (ν := Native) htokens
  have hrendered : renderAll (tokens.filter (·.kind ≠ .eof)) = "x = '\"a\n' y = 1.2.3" := by cbv
  rw [hrendered] at htext
  subst htext
  have hstring := hsingle ⟨.string, "\"a\n", 1⟩ (by simp [tokens]) (by simp)
  exact ⟨_, _, tokens, program, _, htokens, rfl, by decide, hreformat, hagain, hcompile,
    hsame _ _ _ _ hcompile, hstring⟩

end Token

end StackScript
