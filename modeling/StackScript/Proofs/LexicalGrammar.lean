import Mathlib.Data.List.TakeWhile
import Mathlib.Data.Nat.Init
import StackScript.Token.Scanner

/-!
# The lexical grammar

A text is a sequence of lexemes with blanks around them. Which characters make a lexeme depends on
what follows them: numbers and words are as long as they can be, and an operator takes an equals
sign that follows it. Reading tokens finds the one way to divide a text so, or the first place where
no lexeme fits.
-/

namespace StackScript.Token

/-- The characters `written`, with `after` following them, are a lexeme: a token of this kind with
this text. -/
inductive Lexeme (after : List Char) : (written : List Char) → TokenKind → (text : List Char) → Prop
  | number {first : Char} {more : List Char} (starts : first.isDigit = true)
      (goesOn : ∀ c ∈ more, c.isDigit = true ∨ c = '.')
      (ends : ∀ c ∈ after.head?, ¬(c.isDigit = true ∨ c = '.')) :
      Lexeme after (first :: more) .number (first :: more)
  | word {first : Char} {more : List Char} (starts : first.isAlpha = true ∨ first = '_')
      (goesOn : ∀ c ∈ more, c.isAlphanum = true ∨ c = '_')
      (ends : ∀ c ∈ after.head?, ¬(c.isAlphanum = true ∨ c = '_')) :
      Lexeme after (first :: more) .identifier (first :: more)
  | compound {first : Char} (starts : first ∈ ['+', '-', '*', '/', '=', '>', '<']) :
      Lexeme after [first, '='] .operator [first, '=']
  | operator {first : Char} (starts : first ∈ ['+', '-', '*', '/', '>', '<'])
      (ends : after.head? ≠ some '=') : Lexeme after [first] .operator [first]
  | assign (ends : after.head? ≠ some '=') : Lexeme after ['='] .assign ['=']
  | string {quote : Char} {text : List Char} (quotes : quote ∈ ['"', '\x27'])
      (inside : quote ∉ text) : Lexeme after (quote :: (text ++ [quote])) .string text
  | mark {symbol : Char} (marks : symbol ∈ ['(', ')', '\x7b', '\x7d', ',', ';']) :
      Lexeme after [symbol] .punctuation [symbol]

/-- Only blanks. -/
def Blanks (text : List Char) : Prop :=
  ∀ c ∈ text, c ∈ [' ', '\t', '\n', '\r']

/-- A lexeme with the blanks before it, and the kind and the text of its token. -/
@[ext] structure Piece where
  blanks : List Char
  written : List Char
  kind : TokenKind
  text : List Char

/-- The text starts with the given pieces, and `rest` follows them. -/
inductive Divides : List Char → List Piece → List Char → Prop
  | nil {rest : List Char} : Divides rest [] rest
  | cons {piece : Piece} {pieces : List Piece} {after rest : List Char}
      (blank : Blanks piece.blanks) (lexeme : Lexeme after piece.written piece.kind piece.text)
      (more : Divides after pieces rest) :
      Divides (piece.blanks ++ (piece.written ++ after)) (piece :: pieces) rest

/-- The line of what follows a text: one more than there are line ends in it. -/
def lineAfter (before : List Char) : Nat :=
  1 + lineEnds before

/-- The tokens of pieces that follow the text `before`. The line of a token is that of its first
character. -/
def pieceTokens (before : List Char) : List Piece → List Token
  | [] => []
  | piece :: pieces =>
      ⟨piece.kind, String.ofList piece.text, lineAfter (before ++ piece.blanks)⟩ ::
        pieceTokens (before ++ (piece.blanks ++ piece.written)) pieces

/-- No lexeme starts here. -/
def Unlexed (text : List Char) : Prop :=
  ∀ written after kind content, text = written ++ after → ¬Lexeme after written kind content

/-- The error at a character that starts no lexeme: a quote is never closed, and any other
character is out of place. -/
def errorAt (first : Char) (line : Nat) : LexError :=
  if first ∈ ['"', '\x27'] then .unterminatedString line else .unrecognizedCharacter first line

/-! ## Characters -/

theorem isBlank_iff {c : Char} : isBlank c = true ↔ c ∈ [' ', '\t', '\n', '\r'] := by
  simp [isBlank, or_assoc]

theorem isNumberPart_iff {c : Char} : isNumberPart c = true ↔ c.isDigit = true ∨ c = '.' := by
  simp [isNumberPart]

theorem isWordStart_iff {c : Char} : isWordStart c = true ↔ c.isAlpha = true ∨ c = '_' := by
  simp [isWordStart]

theorem isWordPart_iff {c : Char} : isWordPart c = true ↔ c.isAlphanum = true ∨ c = '_' := by
  simp [isWordPart]

theorem isQuote_iff {c : Char} : isQuote c = true ↔ c ∈ ['"', '\x27'] := by
  simp [isQuote]

theorem isOperatorStart_iff {c : Char} :
    isOperatorStart c = true ↔ c ∈ ['+', '-', '*', '/', '=', '>', '<'] := by
  simp [isOperatorStart]

theorem isPunctuation_iff {c : Char} :
    isPunctuation c = true ↔ c ∈ ['(', ')', '\x7b', '\x7d', ',', ';'] := by
  simp [isPunctuation]

/-- A word starts with no digit. -/
theorem isDigit_eq_false_of_word {c : Char} (h : c.isAlpha = true ∨ c = '_') :
    c.isDigit = false := by
  rcases h with h | rfl
  · have hletter : c.val ≥ 'A'.val ∧ c.val ≤ 'Z'.val ∨ c.val ≥ 'a'.val ∧ c.val ≤ 'z'.val := by
      rcases Bool.or_eq_true_iff.1 h with hupper | hlower
      · exact .inl (of_decide_eq_true hupper)
      · obtain ⟨hfirst, hlast⟩ := Bool.and_eq_true_iff.1 hlower
        exact .inr ⟨of_decide_eq_true hfirst, of_decide_eq_true hlast⟩
    simp only [Char.isDigit, Bool.and_eq_false_iff, decide_eq_false_iff_not,
      UInt32.le_iff_toNat_le, ge_iff_le] at hletter ⊢
    have hnine : '9'.val.toNat = 57 := rfl
    have hcapital : 'A'.val.toNat = 65 := rfl
    have hsmall : 'a'.val.toNat = 97 := rfl
    omega
  · rfl

/-! The classes that characters start lexemes of are disjoint. -/

theorem plain_operator : ∀ c ∈ ['+', '-', '*', '/', '=', '>', '<'],
    ¬c.isDigit = true ∧ ¬isWordStart c = true := by
  simp only [List.forall_mem_cons, List.not_mem_nil, false_imp_iff, implies_true]
  decide

theorem plain_quote : ∀ c ∈ ['"', '\x27'],
    ¬c.isDigit = true ∧ ¬isWordStart c = true ∧ ¬isOperatorStart c = true := by
  simp only [List.forall_mem_cons, List.not_mem_nil, false_imp_iff, implies_true]
  decide

theorem plain_mark : ∀ c ∈ ['(', ')', '\x7b', '\x7d', ',', ';'],
    ¬c.isDigit = true ∧ ¬isWordStart c = true ∧ ¬isOperatorStart c = true ∧
      ¬isQuote c = true := by
  simp only [List.forall_mem_cons, List.not_mem_nil, false_imp_iff, implies_true]
  decide

theorem plain_blank : ∀ c ∈ [' ', '\t', '\n', '\r'],
    ¬c.isDigit = true ∧ ¬isWordStart c = true ∧ ¬isOperatorStart c = true ∧
      ¬isQuote c = true ∧ ¬isPunctuation c = true := by
  simp only [List.forall_mem_cons, List.not_mem_nil, false_imp_iff, implies_true]
  decide

/-! ## Lexemes -/

section Runs

variable {α : Type} {p : α → Bool} {front after : List α}

theorem takeWhile_run (hfront : ∀ a ∈ front, p a = true) (hafter : ∀ a ∈ after.head?, ¬p a = true) :
    (front ++ after).takeWhile p = front := by
  rw [List.takeWhile_append_of_pos hfront]
  cases after with
  | nil => simp
  | cons a rest => rw [List.takeWhile_cons_of_neg (hafter a rfl), List.append_nil]

theorem dropWhile_run (hfront : ∀ a ∈ front, p a = true) (hafter : ∀ a ∈ after.head?, ¬p a = true) :
    (front ++ after).dropWhile p = after := by
  rw [List.dropWhile_append_of_pos hfront]
  cases after with
  | nil => rfl
  | cons a rest => rw [List.dropWhile_cons_of_neg (hafter a rfl)]

theorem head?_dropWhile (p : α → Bool) (list : List α) :
    ∀ a ∈ (list.dropWhile p).head?, ¬p a = true := by
  intro a ha
  have hnot := List.head?_dropWhile_not p list
  rw [Option.mem_def.1 ha] at hnot
  simpa using hnot

end Runs

theorem lexeme_operator {line : Nat} {first : Char} {after : List Char}
    (hfirst : first ∈ ['+', '-', '*', '/', '=', '>', '<']) (hafter : after.head? ≠ some '=') :
    lexeme line first after =
      .ok (⟨if first = '=' then .assign else .operator, String.ofList [first], line⟩, after) := by
  obtain ⟨hdigit, hword⟩ := plain_operator first hfirst
  unfold lexeme
  rw [if_neg hdigit, if_neg hword, if_pos (isOperatorStart_iff.2 hfirst)]
  split
  · simp at hafter
  · rfl

namespace Lexeme

variable {after written text : List Char} {kind : TokenKind}

theorem ne_nil (h : Lexeme after written kind text) : written ≠ [] := by
  cases h <;> simp

/-- The quotes around a string end no line. -/
theorem lineEnds_eq (h : Lexeme after written kind text) : lineEnds text = lineEnds written := by
  cases h with
  | string quotes =>
      have hquote : ∀ quote ∈ ['"', '\x27'], quote ≠ '\n' := by simp
      simp [lineEnds, hquote _ quotes]
  | number | word | compound | operator | assign | mark => rfl

/-- What is a lexeme is read as one. -/
theorem read (h : Lexeme after written kind text) (line : Nat) :
    ∃ first more, written = first :: more ∧
      lexeme line first (more ++ after) = .ok (⟨kind, String.ofList text, line⟩, after) := by
  cases h with
  | @number first more starts goesOn ends =>
      have hparts : ∀ c ∈ more, isNumberPart c = true := fun c hc =>
        isNumberPart_iff.2 (goesOn c hc)
      have hends : ∀ c ∈ after.head?, ¬isNumberPart c = true := fun c hc =>
        mt isNumberPart_iff.1 (ends c hc)
      refine ⟨first, more, rfl, ?_⟩
      unfold lexeme
      rw [if_pos starts, takeWhile_run hparts hends, dropWhile_run hparts hends]
  | @word first more starts goesOn ends =>
      have hparts : ∀ c ∈ more, isWordPart c = true := fun c hc => isWordPart_iff.2 (goesOn c hc)
      have hends : ∀ c ∈ after.head?, ¬isWordPart c = true := fun c hc =>
        mt isWordPart_iff.1 (ends c hc)
      refine ⟨first, more, rfl, ?_⟩
      unfold lexeme
      rw [if_neg (by simp [isDigit_eq_false_of_word starts]),
        if_pos (isWordStart_iff.2 starts), takeWhile_run hparts hends, dropWhile_run hparts hends]
  | @compound first starts =>
      obtain ⟨hdigit, hword⟩ := plain_operator first starts
      refine ⟨first, ['='], rfl, ?_⟩
      unfold lexeme
      rw [if_neg hdigit, if_neg hword, if_pos (isOperatorStart_iff.2 starts)]
      rfl
  | @operator first starts ends =>
      have hoperators : ∀ c ∈ ['+', '-', '*', '/', '>', '<'],
          c ∈ ['+', '-', '*', '/', '=', '>', '<'] := by simp
      have hassign : ∀ c ∈ ['+', '-', '*', '/', '>', '<'], c ≠ '=' := by simp
      refine ⟨first, [], rfl, ?_⟩
      rw [List.nil_append, lexeme_operator (hoperators first starts) ends,
        if_neg (hassign first starts)]
  | assign ends =>
      refine ⟨'=', [], rfl, ?_⟩
      rw [List.nil_append, lexeme_operator (by simp) ends, if_pos rfl]
  | @string quote text quotes inside =>
      obtain ⟨hdigit, hword, hoperator⟩ := plain_quote quote quotes
      have hparts : ∀ c ∈ text, decide (c ≠ quote) = true := by
        intro c hc
        simp only [decide_eq_true_eq]
        rintro rfl
        exact inside hc
      have hends : ∀ c ∈ (quote :: after).head?, ¬decide (c ≠ quote) = true := by simp
      refine ⟨quote, text ++ [quote], rfl, ?_⟩
      unfold lexeme
      rw [if_neg hdigit, if_neg hword, if_neg hoperator, if_pos (isQuote_iff.2 quotes),
        List.append_assoc, List.singleton_append, dropWhile_run hparts hends,
        takeWhile_run hparts hends]
  | @mark symbol marks =>
      obtain ⟨hdigit, hword, hoperator, hquote⟩ := plain_mark symbol marks
      refine ⟨symbol, [], rfl, ?_⟩
      unfold lexeme
      rw [if_neg hdigit, if_neg hword, if_neg hoperator, if_neg hquote,
        if_pos (isPunctuation_iff.2 marks), List.nil_append]

/-- A lexeme starts with no blank. -/
theorem head_ne_blank (h : Lexeme after written kind text) :
    ∀ c ∈ written.head?, isBlank c = false := by
  intro c hc
  obtain ⟨first, more, rfl, hlexeme⟩ := h.read 0
  cases hc
  rw [← Bool.not_eq_true, isBlank_iff]
  intro hblank
  obtain ⟨hdigit, hword, hoperator, hquote, hmark⟩ := plain_blank c hblank
  unfold lexeme at hlexeme
  rw [if_neg hdigit, if_neg hword, if_neg hoperator, if_neg hquote, if_neg hmark] at hlexeme
  cases hlexeme

end Lexeme

/-- What is read as a lexeme is one. -/
theorem lexeme_ok {line : Nat} {first : Char} {rest after : List Char} {token : Token}
    (h : lexeme line first rest = .ok (token, after)) :
    ∃ written text, first :: rest = written ++ after ∧ Lexeme after written token.kind text ∧
      token.text = String.ofList text := by
  unfold lexeme at h
  split at h
  next hdigit =>
    cases h
    refine ⟨first :: rest.takeWhile isNumberPart, _, ?_, .number hdigit ?_ ?_, rfl⟩
    · rw [List.cons_append, List.takeWhile_append_dropWhile]
    · intro c hc
      exact isNumberPart_iff.1 (List.mem_takeWhile_imp hc)
    · intro c hc
      exact mt isNumberPart_iff.2 (head?_dropWhile _ _ c hc)
  split at h
  next hword =>
    cases h
    refine ⟨first :: rest.takeWhile isWordPart, _, ?_, .word (isWordStart_iff.1 hword) ?_ ?_, rfl⟩
    · rw [List.cons_append, List.takeWhile_append_dropWhile]
    · intro c hc
      exact isWordPart_iff.1 (List.mem_takeWhile_imp hc)
    · intro c hc
      exact mt isWordPart_iff.2 (head?_dropWhile _ _ c hc)
  split at h
  next hoperator =>
    rw [isOperatorStart_iff] at hoperator
    split at h
    next =>
      cases h
      exact ⟨[first, '='], _, rfl, .compound hoperator, rfl⟩
    next halone =>
      cases h
      have hends : rest.head? ≠ some '=' := by
        intro hhead
        obtain ⟨more, hmore⟩ := List.head?_eq_some_iff.1 hhead
        exact halone more hmore
      by_cases hassign : first = '='
      · subst hassign
        exact ⟨['='], _, rfl, .assign hends, rfl⟩
      · simp only [if_neg hassign]
        refine ⟨[first], _, rfl, .operator ?_ hends, rfl⟩
        simpa [hassign] using hoperator
  split at h
  next hquote =>
    split at h
    next => cases h
    next closing after' hdrop =>
      cases h
      have hclosing : closing = first := by
        have hnot := head?_dropWhile (· ≠ first) rest closing (by rw [hdrop]; rfl)
        simpa using hnot
      subst hclosing
      refine ⟨closing :: (rest.takeWhile (· ≠ closing) ++ [closing]), _, ?_,
        .string (isQuote_iff.1 hquote) ?_, rfl⟩
      · rw [List.cons_append, List.append_assoc, List.singleton_append, ← hdrop,
          List.takeWhile_append_dropWhile]
      · intro hmem
        simpa using List.mem_takeWhile_imp hmem
  split at h
  next hmark =>
    cases h
    exact ⟨[first], _, rfl, .mark (isPunctuation_iff.1 hmark), rfl⟩
  next => cases h

theorem error_of_lexeme {line : Nat} {first : Char} {rest : List Char} {error : LexError}
    (h : lexeme line first rest = .error error) : error = errorAt first line := by
  unfold lexeme at h
  repeat' split at h
  all_goals cases h
  next hquote _ _ => rw [errorAt, if_pos (isQuote_iff.1 hquote)]
  next hquote _ => rw [errorAt, if_neg (mt isQuote_iff.2 hquote)]

/-- A place where no lexeme fits is an error, and only such a place. -/
theorem lexeme_eq_error_iff {line : Nat} {first : Char} {rest : List Char} :
    lexeme line first rest = .error (errorAt first line) ↔ Unlexed (first :: rest) := by
  constructor
  · intro herror written after kind content htext hlexeme
    obtain ⟨first', more, rfl, hread⟩ := hlexeme.read line
    obtain ⟨rfl, rfl⟩ := List.cons.inj htext
    cases herror.symm.trans hread
  · intro hunlexed
    cases hread : lexeme line first rest with
    | error error => rw [error_of_lexeme hread]
    | ok result =>
        obtain ⟨token, after⟩ := result
        obtain ⟨written, text, htext, hlexeme, -⟩ := lexeme_ok hread
        exact absurd hlexeme (hunlexed written after token.kind text htext)

end StackScript.Token

/-! ## Scanners -/

namespace StackScript.Scanner

open Token

/-- Every item takes at least one character, but for the last one. -/
theorem bound_of_next? {scanner after : Scanner} {item : Item}
    (h : scanner.next? = some (item, after)) : after.bound < scanner.bound := by
  cases scanner with
  | finished => cases h
  | reading line text =>
      simp only [next?] at h
      have hlength : (text.dropWhile isBlank).length ≤ text.length :=
        (List.dropWhile_sublist _).length_le
      split at h
      · cases h
        exact Nat.succ_pos _
      next first rest hdrop =>
        rw [hdrop] at hlength
        split at h
        · cases h
          exact Nat.succ_pos _
        next token after' hread =>
          cases h
          obtain ⟨written, text', htext, hlexeme, -⟩ := lexeme_ok hread
          have hwritten := List.length_pos_iff.2 hlexeme.ne_nil
          have hsplit := congrArg List.length htext
          rw [List.length_append] at hsplit
          simp only [bound]
          omega

/-- A scanner hands out no more items than its bound says. -/
theorem take_eq_items {scanner : Scanner} {count : Nat} (h : scanner.bound ≤ count) :
    scanner.take count = scanner.items := by
  have hsame : ∀ (count count' : Nat) (scanner : Scanner), scanner.bound ≤ count →
      scanner.bound ≤ count' → scanner.take count = scanner.take count' := by
    intro count
    induction count with
    | zero =>
        intro count' scanner hcount hcount'
        cases scanner with
        | finished => cases count' <;> rfl
        | reading line text => simp [bound] at hcount
    | succ count ih =>
        intro count' scanner hcount hcount'
        cases hnext : scanner.next? with
        | none => cases count' <;> simp [take, hnext]
        | some front =>
            obtain ⟨item, after⟩ := front
            have hbound := bound_of_next? hnext
            obtain ⟨count', rfl⟩ : ∃ n, count' = n + 1 := ⟨count' - 1, by omega⟩
            simp only [take, hnext]
            rw [ih count' after (by omega) (by omega)]
  exact hsame count scanner.bound scanner h (Nat.le_refl _)

theorem items_of_next? {scanner after : Scanner} {item : Item}
    (h : scanner.next? = some (item, after)) : scanner.items = item :: after.items := by
  have hbound := bound_of_next? h
  obtain ⟨count, hcount⟩ : ∃ n, scanner.bound = n + 1 := ⟨scanner.bound - 1, by omega⟩
  rw [items, hcount, take, h]
  exact congrArg (item :: ·) (take_eq_items (by omega))

theorem items_finished : finished.items = [] :=
  rfl

variable {line : Nat} {blanks rest : List Char}

theorem takeWhile_isBlank (hblanks : Blanks blanks) (hrest : ∀ c ∈ rest.head?, isBlank c = false) :
    (blanks ++ rest).takeWhile isBlank = blanks :=
  takeWhile_run (fun c hc => isBlank_iff.2 (hblanks c hc)) (fun c hc => by simp [hrest c hc])

theorem dropWhile_isBlank (hblanks : Blanks blanks) (hrest : ∀ c ∈ rest.head?, isBlank c = false) :
    (blanks ++ rest).dropWhile isBlank = rest :=
  dropWhile_run (fun c hc => isBlank_iff.2 (hblanks c hc)) (fun c hc => by simp [hrest c hc])

/-- Blanks at the end give the end token. -/
theorem items_of_blanks (h : Blanks blanks) :
    (reading line blanks).items = [.ok (.eof (line + lineEnds blanks))] := by
  have hnil : ∀ c ∈ ([] : List Char).head?, isBlank c = false := by simp
  have htake := takeWhile_isBlank h hnil
  have hdrop := dropWhile_isBlank h hnil
  rw [List.append_nil] at htake hdrop
  have hnext : (reading line blanks).next? =
      some (.ok (.eof (line + lineEnds blanks)), .finished) := by
    simp [next?, htake, hdrop]
  rw [items_of_next? hnext, items_finished]

/-- A lexeme after blanks gives its token. -/
theorem items_of_lexeme {written text after : List Char} {kind : TokenKind}
    (hblanks : Blanks blanks) (h : Lexeme after written kind text) :
    (reading line (blanks ++ (written ++ after))).items =
      .ok ⟨kind, String.ofList text, line + lineEnds blanks⟩ ::
        (reading (line + lineEnds blanks + lineEnds written) after).items := by
  obtain ⟨first, more, rfl, hread⟩ := h.read (line + lineEnds blanks)
  have hhead : ∀ c ∈ (first :: (more ++ after)).head?, isBlank c = false := h.head_ne_blank
  apply items_of_next?
  simp only [next?, List.cons_append, takeWhile_isBlank hblanks hhead,
    dropWhile_isBlank hblanks hhead, hread, String.toList_ofList, h.lineEnds_eq]

/-- A place where no lexeme fits ends the stream. -/
theorem items_of_unlexed {first : Char} (hblanks : Blanks blanks) (hfirst : isBlank first = false)
    (h : Unlexed (first :: rest)) :
    (reading line (blanks ++ first :: rest)).items =
      [.error (errorAt first (line + lineEnds blanks))] := by
  have hhead : ∀ c ∈ (first :: rest).head?, isBlank c = false := by simpa using hfirst
  have hnext : (reading line (blanks ++ first :: rest)).next? =
      some (.error (errorAt first (line + lineEnds blanks)), .finished) := by
    simp only [next?, takeWhile_isBlank hblanks hhead, dropWhile_isBlank hblanks hhead,
      lexeme_eq_error_iff.2 h]
  rw [items_of_next? hnext, items_finished]

end StackScript.Scanner

/-! ## Divisions -/

namespace StackScript.Token

/-- What pieces take of a text. -/
def pieceText (pieces : List Piece) : List Char :=
  pieces.flatMap fun piece => piece.blanks ++ piece.written

/-- After blanks, a character that starts no lexeme. -/
def Stuck (text : List Char) : Prop :=
  ∃ blanks first rest, text = blanks ++ first :: rest ∧ Blanks blanks ∧ ¬Blanks [first] ∧
    Unlexed (first :: rest)

theorem lineAfter_append (before text : List Char) :
    lineAfter before + lineEnds text = lineAfter (before ++ text) := by
  simp only [lineAfter, lineEnds, List.count_append]
  omega

theorem blanks_singleton {c : Char} : Blanks [c] ↔ isBlank c = true := by
  rw [isBlank_iff]
  simp [Blanks]

namespace Lexeme

/-- Lexemes do not consist of blanks. -/
theorem not_blanks {after written text : List Char} {kind : TokenKind}
    (h : Lexeme after written kind text) (blanks : List Char) :
    ¬Blanks (blanks ++ (written ++ after)) := by
  intro hblanks
  obtain ⟨first, more, rfl, -⟩ := h.read 0
  have hfirst := isBlank_iff.2 (hblanks first (by simp))
  rw [h.head_ne_blank first rfl] at hfirst
  cases hfirst

/-- At most one lexeme starts after the blanks at the beginning of a text. -/
theorem unique {blanks blanks' written written' text text' after after' : List Char}
    {kind kind' : TokenKind} (h : Lexeme after written kind text)
    (h' : Lexeme after' written' kind' text') (hblanks : Blanks blanks) (hblanks' : Blanks blanks')
    (htext : blanks ++ (written ++ after) = blanks' ++ (written' ++ after')) :
    blanks = blanks' ∧ written = written' ∧ kind = kind' ∧ text = text' ∧ after = after' := by
  obtain ⟨first, more, rfl, hread⟩ := h.read 0
  obtain ⟨first', more', rfl, hread'⟩ := h'.read 0
  have hhead : ∀ c ∈ (first :: more ++ after).head?, isBlank c = false := h.head_ne_blank
  have hhead' : ∀ c ∈ (first' :: more' ++ after').head?, isBlank c = false := h'.head_ne_blank
  have hsame : blanks = blanks' := by
    rw [← Scanner.takeWhile_isBlank hblanks hhead, ← Scanner.takeWhile_isBlank hblanks' hhead',
      htext]
  have hfollows : first :: more ++ after = first' :: more' ++ after' := by
    rw [← Scanner.dropWhile_isBlank hblanks hhead, ← Scanner.dropWhile_isBlank hblanks' hhead',
      htext]
  simp only [List.cons_append, List.cons.injEq] at hfollows
  obtain ⟨rfl, hmore⟩ := hfollows
  rw [hmore, hread'] at hread
  obtain ⟨htoken, rfl⟩ := Prod.mk.inj (Except.ok.inj hread)
  obtain ⟨rfl, hcontent, -⟩ := Token.mk.inj htoken
  exact ⟨hsame, congrArg _ (List.append_cancel_right hmore), rfl,
    (String.ofList_injective hcontent).symm, rfl⟩

end Lexeme

namespace Divides

variable {text rest : List Char} {pieces : List Piece}

theorem eq_append (h : Divides text pieces rest) : text = pieceText pieces ++ rest := by
  induction h with
  | nil => rfl
  | cons _ _ _ ih =>
      rw [ih]
      simp [pieceText]

/-- The pieces of a text give their tokens, and what follows them is read from there. -/
theorem items_eq (h : Divides text pieces rest) (before : List Char) :
    (Scanner.reading (lineAfter before) text).items =
      (pieceTokens before pieces).map .ok ++
        (Scanner.reading (lineAfter (before ++ pieceText pieces)) rest).items := by
  induction h generalizing before with
  | nil => simp [pieceText, pieceTokens]
  | @cons piece pieces after rest blank lexeme more ih =>
      rw [Scanner.items_of_lexeme blank lexeme, lineAfter_append, lineAfter_append,
        List.append_assoc, ih, pieceTokens, List.map_cons, List.cons_append]
      simp [pieceText]

/-- Lexemes are told apart by their first characters and by where they have to end, so a text can
be divided in one way only. -/
theorem unique {pieces' : List Piece} {rest' : List Char} (h : Divides text pieces rest)
    (hrest : Blanks rest) (h' : Divides text pieces' rest') (hrest' : Blanks rest') :
    pieces = pieces' ∧ rest = rest' := by
  induction h generalizing pieces' with
  | nil =>
      cases h' with
      | nil => exact ⟨rfl, rfl⟩
      | cons _ lexeme _ => exact absurd hrest (lexeme.not_blanks _)
  | @cons piece pieces after rest blank lexeme more ih =>
      generalize htext : piece.blanks ++ (piece.written ++ after) = text at h'
      cases h' with
      | nil => exact absurd (htext ▸ hrest') (lexeme.not_blanks _)
      | @cons piece' _ after' _ blank' lexeme' more' =>
          obtain ⟨hblanks, hwritten, hkind, hcontent, rfl⟩ :=
            lexeme.unique lexeme' blank blank' htext
          obtain ⟨rfl, rfl⟩ := ih hrest more'
          exact ⟨congrArg (· :: _) (Piece.ext hblanks hwritten hkind hcontent), rfl⟩

end Divides

/-- Every text can be divided up to blanks at its end, or up to a place where no lexeme fits. -/
theorem exists_divides (text : List Char) :
    ∃ pieces rest, Divides text pieces rest ∧ (Blanks rest ∨ Stuck rest) := by
  induction hlength : text.length using Nat.strong_induction_on generalizing text with
  | _ length ih =>
    cases hdrop : text.dropWhile isBlank with
    | nil =>
        refine ⟨[], text, .nil, .inl fun c hc => ?_⟩
        exact isBlank_iff.1 (List.dropWhile_eq_nil_iff.1 hdrop c hc)
    | cons first more =>
        have hfirst : ¬isBlank first = true := by
          apply head?_dropWhile isBlank text
          rw [hdrop]
          rfl
        obtain ⟨blanks, hblanks, rfl⟩ : ∃ blanks, Blanks blanks ∧ text = blanks ++ first :: more :=
          ⟨text.takeWhile isBlank, fun c hc => isBlank_iff.1 (List.mem_takeWhile_imp hc),
            by rw [← hdrop, List.takeWhile_append_dropWhile]⟩
        cases hread : lexeme 0 first more with
        | error error =>
            refine ⟨[], _, .nil, .inr ⟨blanks, first, more, rfl, hblanks, ?_, ?_⟩⟩
            · rwa [blanks_singleton]
            · rw [← lexeme_eq_error_iff, hread, error_of_lexeme hread]
        | ok result =>
            obtain ⟨token, after⟩ := result
            obtain ⟨written, content, hwritten, hlexeme, -⟩ := lexeme_ok hread
            rw [hwritten] at hlength ⊢
            have hshorter : after.length < length := by
              have hpositive := List.length_pos_iff.2 hlexeme.ne_nil
              simp only [List.length_append] at hlength
              omega
            obtain ⟨pieces, rest, hdivides, hends⟩ := ih after.length hshorter after rfl
            let piece : Piece := ⟨blanks, written, token.kind, content⟩
            have hpiece : Lexeme after piece.written piece.kind piece.text := hlexeme
            exact ⟨piece :: pieces, rest, .cons hblanks hpiece hdivides, hends⟩

/-! ## Tokens -/

theorem tokenize_eq_ok {text : String} {tokens : List Token} :
    tokenize text = .ok tokens ↔ scan text = tokens.map .ok := by
  unfold tokenize
  generalize scan text = items
  constructor
  · intro h
    induction items generalizing tokens with
    | nil =>
        cases h
        rfl
    | cons item items ih =>
        rw [List.mapM_cons] at h
        cases item with
        | error error => cases h
        | ok token =>
            cases hitems : items.mapM id with
            | error error =>
                rw [hitems] at h
                cases h
            | ok others =>
                rw [hitems] at h
                cases h
                rw [ih hitems]
                rfl
  · rintro rfl
    induction tokens with
    | nil => rfl
    | cons first rest ih =>
        rw [List.map_cons, List.mapM_cons, ih]
        rfl

theorem tokenize_of_error {text : String} {tokens : List Token} {error : LexError}
    (h : scan text = tokens.map .ok ++ [.error error]) : tokenize text = .error error := by
  unfold tokenize
  rw [h]
  clear h
  induction tokens with
  | nil => rfl
  | cons first rest ih =>
      rw [List.map_cons, List.cons_append, List.mapM_cons, ih]
      rfl

variable {source : String} {pieces : List Piece} {rest : List Char}

/-- A text that is divided up to blanks is read as its tokens, and the end token follows them. -/
theorem tokenize_of_divides (h : Divides source.toList pieces rest) (hrest : Blanks rest) :
    tokenize source = .ok (pieceTokens [] pieces ++ [.eof (lineAfter source.toList)]) := by
  rw [tokenize_eq_ok]
  have hitems := h.items_eq []
  rw [Scanner.items_of_blanks hrest, lineAfter_append, List.nil_append, ← h.eq_append] at hitems
  rw [List.map_append]
  exact hitems

/-- A text that is divided up to a character that starts no lexeme has an error there. -/
theorem tokenize_of_unlexed {before blanks : List Char} {first : Char}
    (h : Divides source.toList pieces (blanks ++ first :: rest)) (hblanks : Blanks blanks)
    (hfirst : ¬Blanks [first]) (hunlexed : Unlexed (first :: rest))
    (hbefore : source.toList = before ++ first :: rest) :
    tokenize source = .error (errorAt first (lineAfter before)) := by
  have hitems := h.items_eq []
  rw [Scanner.items_of_unlexed hblanks (by simpa [blanks_singleton] using hfirst) hunlexed,
    lineAfter_append, List.nil_append] at hitems
  have hsame : before = pieceText pieces ++ blanks := by
    rw [h.eq_append, ← List.append_assoc] at hbefore
    exact (List.append_cancel_right hbefore).symm
  rw [hsame]
  exact tokenize_of_error hitems

/-- A text that is read as tokens is divided up to blanks. -/
theorem divides_of_tokenize {tokens : List Token} (h : tokenize source = .ok tokens) :
    ∃ pieces rest, Divides source.toList pieces rest ∧ Blanks rest ∧
      tokens = pieceTokens [] pieces ++ [.eof (lineAfter source.toList)] := by
  obtain ⟨pieces, rest, hdivides, hends⟩ := exists_divides source.toList
  rcases hends with hrest | ⟨blanks, first, more, rfl, hblanks, hfirst, hunlexed⟩
  · have htokens := tokenize_of_divides hdivides hrest
    exact ⟨pieces, rest, hdivides, hrest, Except.ok.inj (h.symm.trans htokens)⟩
  · have herror := tokenize_of_unlexed hdivides hblanks hfirst hunlexed
      (hdivides.eq_append.trans (List.append_assoc _ _ _).symm)
    cases h.symm.trans herror

/-- Reading tokens is dividing a text into lexemes and blanks. It succeeds exactly on the texts that
can be divided; there is one way to do so, and it gives the tokens, each with the line of its first
character, and one end token. Any other text has an error at the first place where no lexeme
fits. -/
theorem tokenize_iff_divides (source : String) :
    ((∃ tokens, tokenize source = .ok tokens) ↔
      ∃ pieces rest, Divides source.toList pieces rest ∧ Blanks rest) ∧
    (∀ pieces rest pieces' rest', Divides source.toList pieces rest → Blanks rest →
      Divides source.toList pieces' rest' → Blanks rest' → pieces = pieces' ∧ rest = rest') ∧
    (∀ pieces rest, Divides source.toList pieces rest → Blanks rest →
      tokenize source = .ok (pieceTokens [] pieces ++ [.eof (lineAfter source.toList)])) ∧
    (∀ error, tokenize source = .error error ↔
      ∃ pieces blanks first rest before, Divides source.toList pieces (blanks ++ first :: rest) ∧
        Blanks blanks ∧ ¬Blanks [first] ∧ Unlexed (first :: rest) ∧
        source.toList = before ++ first :: rest ∧ error = errorAt first (lineAfter before)) := by
  refine ⟨⟨?_, ?_⟩, ?_, ?_, fun error => ⟨?_, ?_⟩⟩
  · rintro ⟨tokens, htokens⟩
    obtain ⟨pieces, rest, hdivides, hrest, -⟩ := divides_of_tokenize htokens
    exact ⟨pieces, rest, hdivides, hrest⟩
  · rintro ⟨pieces, rest, hdivides, hrest⟩
    exact ⟨_, tokenize_of_divides hdivides hrest⟩
  · intro pieces rest pieces' rest' h hrest h' hrest'
    exact h.unique hrest h' hrest'
  · intro pieces rest h hrest
    exact tokenize_of_divides h hrest
  · intro herror
    obtain ⟨pieces, rest, hdivides, hends⟩ := exists_divides source.toList
    rcases hends with hrest | ⟨blanks, first, more, rfl, hblanks, hfirst, hunlexed⟩
    · cases herror.symm.trans (tokenize_of_divides hdivides hrest)
    · have hbefore := hdivides.eq_append.trans (List.append_assoc _ _ _).symm
      have hfound := tokenize_of_unlexed hdivides hblanks hfirst hunlexed hbefore
      exact ⟨pieces, blanks, first, more, _, hdivides, hblanks, hfirst, hunlexed, hbefore,
        Except.error.inj (herror.symm.trans hfound)⟩
  · rintro ⟨pieces, blanks, first, rest, before, h, hblanks, hfirst, hunlexed, hbefore, rfl⟩
    exact tokenize_of_unlexed h hblanks hfirst hunlexed hbefore

end StackScript.Token
