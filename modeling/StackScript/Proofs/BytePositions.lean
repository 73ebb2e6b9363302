import StackScript.Proofs.Checked
import StackScript.Proofs.LexicalGrammar

/-!
# Texts that are read by byte positions

A text is a sequence of bytes, and a character takes one to four of them. A scanner can keep the
position of a byte and read the text from there, but that is a text only if the position is between
two characters. The scanner moves by whole characters, so it always is, and the tokens are those of
the scanner that keeps the rest of the text.
-/

namespace StackScript

namespace Token

/-- The number of bytes of a text. -/
def byteSize : List Char → Nat
  | [] => 0
  | first :: rest => first.utf8Size + byteSize rest

/-- The text before a byte position and the text after it, if the position is between two
characters. -/
def splitBytes? : (position : Nat) → List Char → Option (List Char × List Char)
  | 0, text => some ([], text)
  | _ + 1, [] => none
  | position + 1, first :: rest =>
      if first.utf8Size ≤ position + 1 then
        (splitBytes? (position + 1 - first.utf8Size) rest).map fun (before, after) =>
          (first :: before, after)
      else none

end Token

/-- A scanner that keeps the whole text and a byte position in it. -/
structure ByteScanner where
  source : List Char
  position : Nat := 0
  line : Nat := 1

/-- A step of a scanner by byte positions. -/
abbrev Lexing := Checked LexError ByteScanner

namespace Lexing

/-- The text from the present position on. -/
def rest : Lexing (List Char) := fun scanner =>
  Checked.demand ((Token.splitBytes? scanner.position scanner.source).map (·.2)) scanner

/-- The text from a position up to the present one. -/
def slice (start : Nat) : Lexing (List Char) := fun scanner =>
  if start ≤ scanner.position then
    Checked.demand (do
      let (_, text) ← Token.splitBytes? start scanner.source
      let (text, _) ← Token.splitBytes? (scanner.position - start) text
      return text) scanner
  else .error .undefined scanner

/-- The next character. -/
def peek : Lexing (Option Char) := do
  return (← rest).head?

/-- Goes past the next character, if there is one. -/
def bump : Lexing Unit := do
  match ← peek with
  | none => return ()
  | some c =>
      modify fun scanner =>
        { scanner with
          position := scanner.position + c.utf8Size
          line := if c = '\n' then scanner.line + 1 else scanner.line }

/-- Goes past characters of a class. -/
def skipWhile (member : Char → Bool) : (rounds : Nat) → Lexing Unit
  | 0 => Checked.undefined
  | rounds + 1 => do
      match ← peek with
      | none => return ()
      | some c =>
          if member c then
            bump
            skipWhile member rounds
          else return ()

/-- Takes characters of a class. -/
def takeWhile (member : Char → Bool) (rounds : Nat) : Lexing (List Char) := do
  let start := (← get).position
  skipWhile member rounds
  slice start

/-- Takes an operator, with an equals sign that follows it directly. -/
def operator (first : Char) : Lexing Token := do
  let line := (← get).line
  bump
  if (← peek) = some '=' then
    bump
    return ⟨.operator, String.ofList [first, '='], line⟩
  else return ⟨if first = '=' then .assign else .operator, String.ofList [first], line⟩

/-- Takes a string between quotes. -/
def string (quote : Char) (rounds : Nat) : Lexing Token := do
  let line := (← get).line
  bump
  let start := (← get).position
  skipWhile (· ≠ quote) rounds
  match ← peek with
  | none => Checked.fail (.unterminatedString line)
  | some _ =>
      let text ← slice start
      bump
      return ⟨.string, String.ofList text, line⟩

/-- Takes the token that `first` opens. -/
def lexeme (first : Char) (rounds : Nat) : Lexing Token := do
  let line := (← get).line
  if first.isDigit then
    return ⟨.number, String.ofList (← takeWhile Token.isNumberPart rounds), line⟩
  else if Token.isWordStart first then
    return ⟨.identifier, String.ofList (← takeWhile Token.isWordPart rounds), line⟩
  else if Token.isOperatorStart first then operator first
  else if Token.isQuote first then string first rounds
  else if Token.isPunctuation first then
    bump
    return ⟨.punctuation, String.ofList [first], line⟩
  else Checked.fail (.unrecognizedCharacter first line)

/-- Takes the next token. -/
def token (rounds : Nat) : Lexing Token := do
  skipWhile Token.isBlank rounds
  match ← peek with
  | none => return .eof (← get).line
  | some first => lexeme first rounds

end Lexing

namespace ByteScanner

/-- At most `count` items from a scanner, up to the end token or an error. There is no result if a
position is not between two characters. -/
def take? (rounds : Nat) : (count : Nat) → ByteScanner → Option (List Item)
  | 0, _ => some []
  | count + 1, scanner =>
      match Lexing.token rounds scanner with
      | .ok token scanner =>
          if token.kind = .eof then some [.ok token]
          else (scanner.take? rounds count).map (.ok token :: ·)
      | .error (.error error) _ => some [.error error]
      | .error .undefined _ => none

/-- The stream of tokens of a text. -/
def scan? (text : String) : Option (List Item) :=
  take? (text.toList.length + 1) (text.toList.length + 1) { source := text.toList }

/-- The stream of tokens of a text, read by byte positions. -/
def scan {ε σ : Type} (text : String) : Checked ε σ (List Item) :=
  Checked.demand (scan? text)

/-- The scanner between two parts of a text. -/
def between (before after : List Char) (line : Nat) : ByteScanner :=
  { source := before ++ after, position := Token.byteSize before, line }

end ByteScanner

/-! ## Positions between two characters -/

namespace Token

theorem byteSize_append (front back : List Char) :
    byteSize (front ++ back) = byteSize front + byteSize back := by
  induction front with
  | nil => simp [byteSize]
  | cons first rest ih => rw [List.cons_append, byteSize, byteSize, ih, Nat.add_assoc]

/-- A text can be split behind any part that it starts with. -/
theorem splitBytes?_append (front back : List Char) :
    splitBytes? (byteSize front) (front ++ back) = some (front, back) := by
  induction front with
  | nil => simp [byteSize, splitBytes?]
  | cons first rest ih =>
      have hpos := first.utf8Size_pos
      obtain ⟨position, hposition⟩ : ∃ position, byteSize (first :: rest) = position + 1 :=
        ⟨byteSize (first :: rest) - 1, by rw [byteSize]; omega⟩
      have hrest : position + 1 - first.utf8Size = byteSize rest := by
        rw [← hposition, byteSize]
        omega
      rw [hposition, List.cons_append, splitBytes?, hrest, ih]
      have hfits : first.utf8Size ≤ position + 1 := by
        rw [← hposition, byteSize]
        omega
      rw [if_pos hfits]
      rfl

theorem lineEnds_append (front back : List Char) :
    lineEnds (front ++ back) = lineEnds front + lineEnds back :=
  List.count_append

end Token

namespace Lexing

open ByteScanner Token

variable {before after : List Char} {line rounds : Nat}

theorem rest_between :
    rest (between before after line) = .ok after (between before after line) := by
  unfold rest between
  rw [splitBytes?_append]
  rfl

theorem peek_between :
    peek (between before after line) = .ok after.head? (between before after line) := by
  unfold peek
  rw [bind_of_ok rest_between]
  rfl

theorem slice_between (middle : List Char) :
    slice (byteSize before) (between (before ++ middle) after line) =
      .ok middle (between (before ++ middle) after line) := by
  have hsize : byteSize (before ++ middle) - byteSize before = byteSize middle := by
    rw [byteSize_append]
    omega
  have hle : byteSize before ≤ byteSize (before ++ middle) := by
    rw [byteSize_append]
    omega
  unfold slice between
  simp only [if_pos hle, hsize, List.append_assoc, splitBytes?_append, Option.bind_eq_bind,
    Option.bind_some]
  rfl

theorem bump_between (c : Char) :
    bump (between before (c :: after) line) =
      .ok () (between (before ++ [c]) after (line + lineEnds [c])) := by
  have hline : (if c = '\n' then line + 1 else line) = line + lineEnds [c] := by
    by_cases hc : c = '\n' <;> simp [lineEnds, hc]
  unfold bump
  rw [bind_of_ok peek_between]
  simp only [between, byteSize_append, ← hline, List.append_assoc, List.head?_cons]
  rfl

/-- Going past the characters of a class. -/
theorem skipWhile_between (member : Char → Bool) (hrounds : after.length < rounds) :
    skipWhile member rounds (between before after line) =
      .ok () (between (before ++ after.takeWhile member) (after.dropWhile member)
        (line + lineEnds (after.takeWhile member))) := by
  induction rounds generalizing before after line with
  | zero => omega
  | succ rounds ih =>
      unfold skipWhile
      rw [bind_of_ok peek_between]
      cases after with
      | nil => simp [lineEnds]; rfl
      | cons c after =>
          simp only [List.head?_cons, List.takeWhile_cons, List.dropWhile_cons]
          by_cases hc : member c = true
          · have hlength : after.length < rounds := Nat.lt_of_succ_lt_succ hrounds
            rw [if_pos hc, if_pos hc, if_pos hc, bind_of_ok (bump_between c), ih hlength,
              ← List.singleton_append (l := after.takeWhile member), lineEnds_append,
              ← List.append_assoc, Nat.add_assoc]
          · rw [if_neg hc, if_neg hc, if_neg hc]
            simp [lineEnds]
            rfl

/-- Taking the characters of a class. -/
theorem takeWhile_between (member : Char → Bool) (hrounds : after.length < rounds) :
    takeWhile member rounds (between before after line) =
      .ok (after.takeWhile member) (between (before ++ after.takeWhile member)
        (after.dropWhile member) (line + lineEnds (after.takeWhile member))) := by
  unfold takeWhile
  rw [get_bind, bind_of_ok (skipWhile_between member hrounds)]
  exact slice_between (after.takeWhile member)

/-! ## Tokens -/

/-- The scanner by positions does what the given outcome says: it takes a token and stands before
the text after it, or it fails with the error. -/
def Takes (lexing : Lexing Token) (before text : List Char) (line : Nat) :
    Except LexError (Token × List Char) → Prop
  | .ok (token, after) => ∃ taken, text = taken ++ after ∧
      lexing (between before text line) = .ok token (between (before ++ taken) after
        (line + lineEnds token.text.toList))
  | .error error => ∃ scanner, lexing (between before text line) = .error (.error error) scanner

theorem Takes.of_eq {lexing lexing' : Lexing Token} {text : List Char}
    {outcome : Except LexError (Token × List Char)} (h : Takes lexing' before text line outcome)
    (heq : lexing (between before text line) = lexing' (between before text line)) :
    Takes lexing before text line outcome := by
  unfold Takes at h ⊢
  rwa [heq]

variable {first : Char} {text : List Char}

/-- A run of characters of a class, the first of which is known. -/
theorem takes_run (member : Char → Bool) (kind : TokenKind) (hfirst : member first = true)
    (hrounds : (first :: text).length < rounds) :
    Takes (do return ⟨kind, String.ofList (← takeWhile member rounds), line⟩) before
      (first :: text) line
      (.ok (⟨kind, String.ofList (first :: text.takeWhile member), line⟩,
        text.dropWhile member)) := by
  refine ⟨first :: text.takeWhile member, by simp, ?_⟩
  rw [bind_of_ok (takeWhile_between member hrounds), List.takeWhile_cons_of_pos hfirst,
    List.dropWhile_cons_of_pos hfirst, String.toList_ofList]
  rfl

theorem takes_compound :
    Takes (operator first) before (first :: '=' :: text) line
      (.ok (⟨.operator, String.ofList [first, '='], line⟩, text)) := by
  refine ⟨[first, '='], rfl, ?_⟩
  unfold operator
  rw [get_bind, bind_of_ok (bump_between first), bind_of_ok peek_between, if_pos List.head?_cons,
    bind_of_ok (bump_between '='), List.append_assoc, Nat.add_assoc, ← lineEnds_append,
    String.toList_ofList]
  rfl

theorem takes_operator (hnext : text.head? ≠ some '=') :
    Takes (operator first) before (first :: text) line
      (.ok (⟨if first = '=' then .assign else .operator, String.ofList [first], line⟩, text)) := by
  refine ⟨[first], rfl, ?_⟩
  unfold operator
  rw [get_bind, bind_of_ok (bump_between first), bind_of_ok peek_between, if_neg hnext,
    String.toList_ofList]
  rfl

section Strings

variable (hrounds : text.length < rounds)
include hrounds

theorem takes_open_string (hopen : text.dropWhile (· ≠ first) = []) :
    Takes (string first rounds) before (first :: text) line
      (.error (.unterminatedString line)) := by
  unfold Takes string
  rw [get_bind, bind_of_ok (bump_between first), get_bind,
    bind_of_ok (skipWhile_between _ hrounds), bind_of_ok peek_between, hopen]
  exact ⟨_, rfl⟩

theorem takes_string {close : Char} {after : List Char} (hfirst : isQuote first = true)
    (hclose : text.dropWhile (· ≠ first) = close :: after) :
    Takes (string first rounds) before (first :: text) line
      (.ok (⟨.string, String.ofList (text.takeWhile (· ≠ first)), line⟩, after)) := by
  have hends : close = first := by
    have hhead := head?_dropWhile (· ≠ first) text close (by rw [hclose]; rfl)
    simpa using hhead
  subst hends
  have hquote : lineEnds [close] = 0 := by
    rcases isQuote_iff.1 hfirst with _ | ⟨_, _ | ⟨_, ⟨⟩⟩⟩ <;> rfl
  have hparts : text.takeWhile (· ≠ close) ++ close :: after = text := by
    rw [← hclose]
    exact List.takeWhile_append_dropWhile
  refine ⟨[close] ++ text.takeWhile (· ≠ close) ++ [close], ?_, ?_⟩
  · rw [List.append_assoc, List.append_assoc, List.singleton_append, List.singleton_append, hparts]
  · unfold string
    rw [get_bind, bind_of_ok (bump_between close), get_bind,
      bind_of_ok (skipWhile_between _ hrounds), bind_of_ok peek_between, hclose, hquote]
    simp only [List.head?_cons]
    have hslice : slice (between (before ++ [close]) text (line + 0)).position
        (between (before ++ [close] ++ text.takeWhile (· ≠ close)) (close :: after)
          (line + 0 + lineEnds (text.takeWhile (· ≠ close)))) =
        .ok (text.takeWhile (· ≠ close)) _ := slice_between _
    rw [bind_of_ok hslice, bind_of_ok (bump_between close), hquote, String.toList_ofList,
      List.append_assoc, List.append_assoc, List.append_assoc]
    rfl

end Strings

theorem takes_lexeme (hrounds : (first :: text).length < rounds) :
    Takes (lexeme first rounds) before (first :: text) line (Token.lexeme line first text) := by
  unfold Token.lexeme
  by_cases hdigit : first.isDigit = true
  · rw [if_pos hdigit]
    refine (takes_run isNumberPart .number (by simp [isNumberPart, hdigit]) hrounds).of_eq ?_
    unfold lexeme
    rw [get_bind, if_pos hdigit]
    rfl
  rw [if_neg hdigit]
  by_cases hword : isWordStart first = true
  · rw [if_pos hword]
    have hpart : isWordPart first = true :=
      isWordPart_iff.2 ((isWordStart_iff.1 hword).imp_left fun halpha => by
        simp [Char.isAlphanum, halpha])
    refine (takes_run isWordPart .identifier hpart hrounds).of_eq ?_
    unfold lexeme
    rw [get_bind, if_neg hdigit, if_pos hword]
    rfl
  rw [if_neg hword]
  by_cases hoperator : isOperatorStart first = true
  · have heq : lexeme first rounds (between before (first :: text) line) =
        operator first (between before (first :: text) line) := by
      unfold lexeme
      rw [get_bind, if_neg hdigit, if_neg hword, if_pos hoperator]
    rw [if_pos hoperator]
    split
    next => exact takes_compound.of_eq heq
    next hnext =>
      have hhead : text.head? ≠ some '=' := by
        cases text with
        | nil => simp
        | cons c after => simpa using fun hc => hnext after (by rw [hc])
      exact (takes_operator hhead).of_eq heq
  rw [if_neg hoperator]
  by_cases hquote : isQuote first = true
  · have heq : lexeme first rounds (between before (first :: text) line) =
        string first rounds (between before (first :: text) line) := by
      unfold lexeme
      rw [get_bind, if_neg hdigit, if_neg hword, if_neg hoperator, if_pos hquote]
    have hlength : text.length < rounds := Nat.lt_of_succ_lt hrounds
    rw [if_pos hquote]
    split
    next hopen => exact (takes_open_string hlength hopen).of_eq heq
    next hclose => exact (takes_string hlength hquote hclose).of_eq heq
  rw [if_neg hquote]
  by_cases hmark : isPunctuation first = true
  · rw [if_pos hmark]
    refine ⟨[first], rfl, ?_⟩
    unfold lexeme
    rw [get_bind, if_neg hdigit, if_neg hword, if_neg hoperator, if_neg hquote, if_pos hmark,
      bind_of_ok (bump_between first), String.toList_ofList]
    rfl
  · rw [if_neg hmark]
    unfold Takes lexeme
    rw [get_bind, if_neg hdigit, if_neg hword, if_neg hoperator, if_neg hquote, if_neg hmark]
    exact ⟨_, rfl⟩

/-- Nothing but blanks is left. -/
theorem token_of_blanks (hrounds : text.length < rounds) (hrest : text.dropWhile isBlank = []) :
    ∃ scanner, token rounds (between before text line) =
      .ok (.eof (line + lineEnds (text.takeWhile isBlank))) scanner := by
  unfold token
  rw [bind_of_ok (skipWhile_between isBlank hrounds), bind_of_ok peek_between, hrest]
  exact ⟨_, rfl⟩

/-- Blanks are skipped, and the next character opens a token. -/
theorem token_of_first {rest : List Char} (hrounds : text.length < rounds)
    (hrest : text.dropWhile isBlank = first :: rest) :
    token rounds (between before text line) =
      lexeme first rounds (between (before ++ text.takeWhile isBlank) (first :: rest)
        (line + lineEnds (text.takeWhile isBlank))) := by
  unfold token
  rw [bind_of_ok (skipWhile_between isBlank hrounds), bind_of_ok peek_between, hrest]
  rfl

end Lexing

namespace ByteScanner

open Lexing Token

theorem kind_ne_eof_of_lexeme {line : Nat} {first : Char} {rest after : List Char} {token : Token}
    (h : Token.lexeme line first rest = .ok (token, after)) : token.kind ≠ .eof := by
  obtain ⟨written, text, -, hlexeme, -⟩ := lexeme_ok h
  cases token
  cases hlexeme <;> simp

/-- A scanner by positions gives the items of the scanner that keeps the rest of the text. -/
theorem take?_between {rounds count line : Nat} {before text : List Char}
    (hrounds : text.length < rounds) :
    take? rounds count (between before text line) =
      some ((Scanner.reading line text).take count) := by
  -- `rounds` stays as it is: it bounds the loops inside one token, not the number of tokens
  induction count generalizing before text line with
  | zero => rfl
  | succ count ih =>
      let line' := line + lineEnds (text.takeWhile isBlank)
      have hfinished : Scanner.finished.take count = [] := by cases count <;> rfl
      cases hrest : text.dropWhile isBlank with
      | nil =>
          obtain ⟨scanner, htoken⟩ : ∃ scanner, Lexing.token rounds (between before text line) =
            .ok (.eof line') scanner := token_of_blanks hrounds hrest
          have hnext : (Scanner.reading line text).next? =
              some (.ok (.eof line'), .finished) := by
            simp only [Scanner.next?, hrest, line']
          simp only [take?, Scanner.take, htoken, hnext, hfinished]
          rfl
      | cons first rest =>
          have hlength : (first :: rest).length ≤ text.length := by
            rw [← hrest]
            exact List.length_dropWhile_le _ _
          have htakes : Takes (Lexing.lexeme first rounds) (before ++ text.takeWhile isBlank)
              (first :: rest) line' (Token.lexeme line' first rest) :=
            takes_lexeme (Nat.lt_of_le_of_lt hlength hrounds)
          have htoken : Lexing.token rounds (between before text line) = _ :=
            token_of_first hrounds hrest
          cases hlexeme : Token.lexeme line' first rest with
          | error error =>
              have hnext : (Scanner.reading line text).next? = some (.error error, .finished) := by
                simp only [Scanner.next?, hrest, hlexeme, line']
              rw [hlexeme] at htakes
              obtain ⟨scanner, hscanner⟩ := htakes
              simp only [take?, Scanner.take, htoken, hscanner, hnext, hfinished, line']
          | ok result =>
              obtain ⟨token, after⟩ := result
              have hnext : (Scanner.reading line text).next? =
                  some (.ok token, .reading (line' + lineEnds token.text.toList) after) := by
                simp only [Scanner.next?, hrest, hlexeme, line']
              rw [hlexeme] at htakes
              obtain ⟨taken, htext, hscanner⟩ := htakes
              have hafter : after.length < rounds := by
                rw [htext, List.length_append] at hlength
                omega
              simp only [take?, Scanner.take, htoken, hscanner, hnext,
                if_neg (kind_ne_eof_of_lexeme hlexeme), ih hafter, Option.map_some, line']

/-- Reading a text by byte positions gives its tokens. -/
theorem scan_eq {ε σ : Type} (text : String) :
    (scan text : Checked ε σ (List Item)) = pure (Token.scan text) := by
  have hstart : ({ source := text.toList } : ByteScanner) = between [] text.toList 1 := rfl
  unfold scan scan?
  rw [hstart, take?_between (Nat.lt_succ_self _)]
  rfl

end ByteScanner

end StackScript
