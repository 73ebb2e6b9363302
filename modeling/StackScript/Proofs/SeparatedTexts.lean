import Mathlib
import StackScript.Proofs.Rendering

/-!
# Texts with a blank between them

No lexeme goes on over a blank, except inside a string. So when a text that can be read is followed
by a blank and any other text, the tokens are those of the first text and then those of the second
one, which starts as many lines further down as there are line ends before it. A lexical error of
the second text is found where it is, that many lines further down.
-/

namespace StackScript

/-! ## Lines further down -/

/-- The same token some lines further down. -/
def Token.shift (lines : Nat) (token : Token) : Token :=
  { token with line := token.line + lines }

/-- The same error some lines further down. -/
def LexError.shift (lines : Nat) : LexError → LexError
  | .unterminatedString line => .unterminatedString (line + lines)
  | .unrecognizedCharacter character line => .unrecognizedCharacter character (line + lines)

/-- The same item some lines further down. -/
def Item.shift (lines : Nat) : Item → Item
  | .ok token => .ok (token.shift lines)
  | .error error => .error (error.shift lines)

namespace Token

/-- Which token a character opens does not depend on the line. -/
theorem lexeme_shift (line lines : Nat) (first : Char) (rest : List Char) :
    lexeme (line + lines) first rest =
      ((lexeme line first rest).map fun found => (found.1.shift lines, found.2)).mapError
        (LexError.shift lines) := by
  unfold lexeme
  repeat' split
  all_goals rfl

end Token

namespace Scanner

open Token

/-- A scanner of the same text some lines further down. -/
def shift (lines : Nat) : Scanner → Scanner
  | .reading line rest => .reading (line + lines) rest
  | .finished => .finished

theorem bound_shift (lines : Nat) (scanner : Scanner) :
    (scanner.shift lines).bound = scanner.bound := by
  cases scanner <;> rfl

theorem next?_shift (lines : Nat) (scanner : Scanner) :
    (scanner.shift lines).next? =
      scanner.next?.map fun found => (Item.shift lines found.1, found.2.shift lines) := by
  cases scanner with
  | finished => rfl
  | reading line text =>
      simp only [shift, next?]
      rw [Nat.add_right_comm line lines]
      generalize line + lineEnds (text.takeWhile isBlank) = start
      cases text.dropWhile isBlank with
      | nil => rfl
      | cons first rest =>
          simp only [lexeme_shift]
          cases lexeme start first rest with
          | error error => rfl
          | ok found =>
              let item := Item.shift lines (.ok found.1)
              exact congrArg (fun line => some (item, reading line found.2))
                (Nat.add_right_comm start lines (lineEnds found.1.text.toList))

/-- Further down, a scanner hands out the same items further down. -/
theorem items_shift (lines : Nat) (scanner : Scanner) :
    (scanner.shift lines).items = scanner.items.map (Item.shift lines) := by
  have htake : ∀ (count : Nat) (scanner : Scanner),
      (scanner.shift lines).take count = (scanner.take count).map (Item.shift lines) := by
    intro count
    induction count with
    | zero =>
        intro scanner
        rfl
    | succ count ih =>
        intro scanner
        unfold take
        rw [next?_shift]
        cases scanner.next? with
        | none => rfl
        | some found => exact congrArg (Item.shift lines found.1 :: ·) (ih found.2)
  rw [items, bound_shift, htake]
  rfl

/-- Blanks in front of a text only end lines. -/
theorem items_of_leading_blanks {blanks : List Char} (h : Blanks blanks) (line : Nat)
    (text : List Char) :
    (reading line (blanks ++ text)).items = (reading (line + lineEnds blanks) text).items := by
  have hblank : ∀ c ∈ blanks, isBlank c = true := fun c hc => isBlank_iff.2 (h c hc)
  have hnext : (reading line (blanks ++ text)).next? =
      (reading (line + lineEnds blanks) text).next? := by
    simp only [next?, List.takeWhile_append_of_pos hblank, List.dropWhile_append_of_pos hblank,
      lineEnds, List.count_append, Nat.add_assoc]
  cases hfound : (reading (line + lineEnds blanks) text).next? with
  | none =>
      simp only [next?] at hfound
      split at hfound
      · cases hfound
      · split at hfound <;> cases hfound
  | some found =>
      obtain ⟨item, after⟩ := found
      rw [items_of_next? (hnext.trans hfound), items_of_next? hfound]

end Scanner

/-! ## A blank ends a lexeme -/

namespace Token

variable {text rest more : List Char} {pieces : List Piece} {blank : Char}

/-- A blank goes on with no number, word or operator. -/
theorem inert_blank : ∀ c ∈ [' ', '\t', '\n', '\r'],
    c.isDigit = false ∧ c ≠ '.' ∧ c.isAlphanum = false ∧ c ≠ '_' ∧ c ≠ '=' := by
  simp only [List.forall_mem_cons, List.not_mem_nil, false_imp_iff, implies_true]
  decide

/-- A lexeme stays one if a blank comes after what follows it. -/
theorem Lexeme.followed_by_blank {after written content : List Char} {kind : TokenKind}
    (h : Lexeme after written kind content) (hblank : blank ∈ [' ', '\t', '\n', '\r']) :
    Lexeme (after ++ blank :: more) written kind content := by
  obtain ⟨hdigit, hdot, hletter, hscore, hsign⟩ := inert_blank blank hblank
  -- what follows the lexeme starts as before, or with the blank
  have hhead : ∀ c ∈ (after ++ blank :: more).head?, c ∈ after.head? ∨ c = blank := by
    cases after with
    | nil =>
        intro c hc
        exact .inr (Option.some.inj hc).symm
    | cons first rest =>
        intro c hc
        exact .inl hc
  have hends : after.head? ≠ some '=' → (after ++ blank :: more).head? ≠ some '=' := by
    intro hafter heq
    rcases hhead '=' heq with hmem | rfl
    · exact hafter hmem
    · exact hsign rfl
  cases h with
  | number starts goesOn ends =>
      refine .number starts goesOn fun c hc => ?_
      rcases hhead c hc with hmem | rfl
      · exact ends c hmem
      · simp [hdigit, hdot]
  | word starts goesOn ends =>
      refine .word starts goesOn fun c hc => ?_
      rcases hhead c hc with hmem | rfl
      · exact ends c hmem
      · simp [hletter, hscore]
  | compound starts => exact .compound starts
  | operator starts ends => exact .operator starts (hends ends)
  | assign ends => exact .assign (hends ends)
  | string quotes inside => exact .string quotes inside
  | mark marks => exact .mark marks

/-- The pieces of a text stay its pieces if a blank comes after it. -/
theorem Divides.followed_by_blank (h : Divides text pieces rest)
    (hblank : blank ∈ [' ', '\t', '\n', '\r']) :
    Divides (text ++ blank :: more) pieces (rest ++ blank :: more) := by
  induction h with
  | nil => exact .nil
  | cons blanks lexeme _ ih =>
      rw [List.append_assoc, List.append_assoc]
      exact .cons blanks (lexeme.followed_by_blank hblank) ih

/-! ## Items and tokens -/

/-- The items of a text that can be read, a blank and another text. -/
theorem scan_separated {front : String} {tokens : List Token} (h : tokenize front = .ok tokens)
    (hblank : blank ∈ [' ', '\t', '\n', '\r']) (back : String) :
    scan (front ++ String.singleton blank ++ back) =
      (tokens.filter (·.kind ≠ .eof)).map .ok ++
        (scan back).map (Item.shift (lineEnds (front.toList ++ [blank]))) := by
  obtain ⟨pieces, rest, hdivides, hrest, rfl⟩ := divides_of_tokenize h
  have hblanks : Blanks (rest ++ [blank]) := by
    intro c hc
    rcases List.mem_append.1 hc with hmem | hmem
    · exact hrest c hmem
    · exact List.mem_singleton.1 hmem ▸ hblank
  have hbefore : lineAfter ([] ++ pieceText pieces) + lineEnds (rest ++ [blank]) =
      1 + lineEnds (front.toList ++ [blank]) := by
    rw [lineAfter_append, List.nil_append, ← List.append_assoc, ← hdivides.eq_append]
    rfl
  have hlonger : Divides (front.toList ++ blank :: back.toList) pieces
      (rest ++ blank :: back.toList) := hdivides.followed_by_blank hblank
  have hitems := hlonger.items_eq []
  rw [List.append_cons rest, Scanner.items_of_leading_blanks hblanks, hbefore] at hitems
  calc scan (front ++ String.singleton blank ++ back)
      = (Scanner.reading 1 (front.toList ++ blank :: back.toList)).items := by
        simp [scan, Scanner.start]
    _ = (pieceTokens [] pieces).map Except.ok ++
          (Scanner.reading (1 + lineEnds (front.toList ++ [blank])) back.toList).items := hitems
    _ = _ := by
        rw [filter_pieceTokens hdivides]
        exact congrArg _ (Scanner.items_shift _ (.reading 1 back.toList))

/-- Reading tokens is compositional at blanks. When a text that can be read is followed by a blank
and another text, its tokens without the end token come first. If the other text can be read, its
tokens follow; if not, its error is reported. Both are as many lines further down as there are line
ends before the other text. -/
theorem tokenize_separated {front : String} {tokens : List Token} (h : tokenize front = .ok tokens)
    (hblank : blank ∈ [' ', '\t', '\n', '\r']) (back : String) :
    (∀ others, tokenize back = .ok others →
      tokenize (front ++ String.singleton blank ++ back) =
        .ok (tokens.filter (·.kind ≠ .eof) ++
          others.map (Token.shift (lineEnds (front.toList ++ [blank]))))) ∧
    (∀ error, tokenize back = .error error →
      tokenize (front ++ String.singleton blank ++ back) =
        .error (error.shift (lineEnds (front.toList ++ [blank])))) := by
  refine ⟨fun others hothers => ?_, fun error herror => ?_⟩
  · rw [tokenize_eq_ok] at hothers ⊢
    rw [scan_separated h hblank, hothers, List.map_append, List.map_map, List.map_map]
    rfl
  · obtain ⟨others, hothers, -⟩ := scan_of_tokenize_error herror
    have hscan : scan (front ++ String.singleton blank ++ back) =
        (tokens.filter (·.kind ≠ .eof) ++
          others.map (Token.shift (lineEnds (front.toList ++ [blank])))).map .ok ++
        [.error (error.shift (lineEnds (front.toList ++ [blank])))] := by
      rw [scan_separated h hblank, hothers, List.map_append, List.map_append, List.map_map,
        List.map_map, List.append_assoc]
      rfl
    exact tokenize_of_error hscan

/-- A string that ends a line, followed by a line end; the other text is read in the first case and
has a string that is never closed in the second one. -/
theorem tokenize_separated_by_line_end :
    ∃ tokens : List Token, tokenize "s='a\n' " = .ok tokens ∧
      tokenize "s='a\n' \nx<=1.5" =
        .ok [⟨.identifier, "s", 1⟩, ⟨.assign, "=", 1⟩, ⟨.string, "a\n", 1⟩, ⟨.identifier, "x", 3⟩,
          ⟨.operator, "<=", 3⟩, ⟨.number, "1.5", 3⟩, .eof 3] ∧
      tokenize "s='a\n' \n y \n'" = .error (.unterminatedString 4) := by
  let tokens : List Token :=
    [⟨.identifier, "s", 1⟩, ⟨.assign, "=", 1⟩, ⟨.string, "a\n", 1⟩, .eof 2]
  have htokens : tokenize "s='a\n' " = .ok tokens := by cbv
  have hline : '\n' ∈ [' ', '\t', '\n', '\r'] := by simp
  have hread : tokenize "x<=1.5" =
      .ok [⟨.identifier, "x", 1⟩, ⟨.operator, "<=", 1⟩, ⟨.number, "1.5", 1⟩, .eof 1] := by cbv
  have hopen : tokenize " y \n'" = .error (.unterminatedString 2) := by cbv
  have hok := (tokenize_separated htokens hline "x<=1.5").1 _ hread
  have herror := (tokenize_separated htokens hline " y \n'").2 _ hopen
  exact ⟨tokens, htokens, hok, herror⟩

end Token

end StackScript
