import StackScript.Token

/-!
# Reading tokens

A scanner walks over a text and hands out one token at a time. It ends with a single end token, or
with the first lexical error. Blanks separate tokens; numbers and words are as long as they can be;
an operator takes an equals sign that follows it directly.
-/

namespace StackScript

namespace Token

/-- The characters that separate tokens. -/
def isBlank (c : Char) : Bool :=
  c = ' ' || c = '\t' || c = '\n' || c = '\r'

/-- The characters a number goes on with. -/
def isNumberPart (c : Char) : Bool :=
  c.isDigit || c = '.'

/-- The characters a word starts with. -/
def isWordStart (c : Char) : Bool :=
  c.isAlpha || c = '_'

/-- The characters a word goes on with. -/
def isWordPart (c : Char) : Bool :=
  c.isAlphanum || c = '_'

/-- The characters an operator starts with. -/
def isOperatorStart (c : Char) : Bool :=
  c ∈ ['+', '-', '*', '/', '=', '>', '<']

/-- The characters a string stands between. -/
def isQuote (c : Char) : Bool :=
  c = '"' || c = '\x27'

/-- The punctuation marks. -/
def isPunctuation (c : Char) : Bool :=
  c ∈ ['(', ')', '\x7b', '\x7d', ',', ';']

/-- The number of line ends in a text. -/
def lineEnds (text : List Char) : Nat :=
  text.count '\n'

/-- The token that `first` opens, and the text after it. -/
def lexeme (line : Nat) (first : Char) (rest : List Char) :
    Except LexError (Token × List Char) :=
  if first.isDigit then
    .ok (⟨.number, String.ofList (first :: rest.takeWhile isNumberPart), line⟩,
      rest.dropWhile isNumberPart)
  else if isWordStart first then
    .ok (⟨.identifier, String.ofList (first :: rest.takeWhile isWordPart), line⟩,
      rest.dropWhile isWordPart)
  else if isOperatorStart first then
    match rest with
    | '=' :: after => .ok (⟨.operator, String.ofList [first, '='], line⟩, after)
    | _ =>
        .ok (⟨if first = '=' then .assign else .operator, String.ofList [first], line⟩, rest)
  else if isQuote first then
    match rest.dropWhile (· ≠ first) with
    | [] => .error (.unterminatedString line)
    | _ :: after => .ok (⟨.string, String.ofList (rest.takeWhile (· ≠ first)), line⟩, after)
  else if isPunctuation first then
    .ok (⟨.punctuation, String.ofList [first], line⟩, rest)
  else .error (.unrecognizedCharacter first line)

end Token

/-- A position in a text that is read for tokens. -/
inductive Scanner where
  /-- The text left to read, which starts on the given line. -/
  | reading (line : Nat) (rest : List Char)
  /-- Nothing follows the end token or a lexical error. -/
  | finished

namespace Scanner

/-- A scanner at the start of a text. -/
def start (text : String) : Scanner :=
  .reading 1 text.toList

/-- The next item with the scanner after it. -/
def next? : Scanner → Option (Item × Scanner)
  | .finished => none
  | .reading line text =>
      let line := line + Token.lineEnds (text.takeWhile Token.isBlank)
      match text.dropWhile Token.isBlank with
      | [] => some (.ok (.eof line), .finished)
      | first :: rest =>
          match Token.lexeme line first rest with
          | .error error => some (.error error, .finished)
          | .ok (token, rest) =>
              some (.ok token, .reading (line + Token.lineEnds token.text.toList) rest)

/-- At most `count` items from a scanner. -/
def take : Nat → Scanner → List Item
  | 0, _ => []
  | count + 1, scanner =>
      match scanner.next? with
      | none => []
      | some (item, scanner) => item :: scanner.take count

/-- A bound on the items left: one for each character and one for the end. -/
def bound : Scanner → Nat
  | .finished => 0
  | .reading _ rest => rest.length + 1

/-- Everything a scanner still hands out. -/
def items (scanner : Scanner) : List Item :=
  scanner.take scanner.bound

end Scanner

namespace Token

/-- The stream of tokens of a text. -/
def scan (text : String) : List Item :=
  (Scanner.start text).items

/-- All tokens of a text, or its first lexical error. -/
def tokenize (text : String) : Except LexError (List Token) :=
  (scan text).mapM id

end Token

end StackScript
