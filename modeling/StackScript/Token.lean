/-!
# Tokens

A token is a kind, its text and the line it starts on. The text of a string token is what stands
between its quotes.
-/

namespace StackScript

/-- The lexical class of a token. -/
inductive TokenKind where
  | eof
  | identifier
  | number
  | string
  | operator
  | assign
  | punctuation
deriving DecidableEq

/-- The word for a kind in messages. -/
def TokenKind.name : TokenKind → String
  | .eof => "EOF"
  | .identifier => "IDENTIFIER"
  | .number => "NUMBER"
  | .string => "STRING"
  | .operator => "OPERATOR"
  | .assign => "ASSIGN"
  | .punctuation => "PUNCTUATION"

/-- A lexical unit of a script. -/
structure Token where
  kind : TokenKind
  text : String
  line : Nat
deriving DecidableEq

/-- Why a text cannot be read as tokens. -/
inductive LexError where
  /-- A string that is still open at the end of the text, with the line of its opening quote. -/
  | unterminatedString (line : Nat)
  /-- A character that starts no token. -/
  | unrecognizedCharacter (character : Char) (line : Nat)
deriving DecidableEq

/-- The text that reports a lexical error. -/
def LexError.message : LexError → String
  | .unterminatedString line => s!"line {line}: unterminated string literal"
  | .unrecognizedCharacter character line =>
      s!"line {line}: unrecognized character '{character}'"

/-- What a stream of tokens holds: a token, or the error that cut the stream off. -/
abbrev Item := Except LexError Token

namespace Token

/-- The token that ends a stream. -/
def eof (line : Nat) : Token :=
  ⟨.eof, "", line⟩

/-- Whether the token is the given punctuation mark. -/
def isMark (token : Token) (mark : String) : Bool :=
  token.kind = .punctuation && token.text = mark

/-- Whether the token is the given word. -/
def isWord (token : Token) (word : String) : Bool :=
  token.kind = .identifier && token.text = word

/-- Whether two tokens agree in all but their line. -/
def sameLexeme (left right : Token) : Bool :=
  left.kind = right.kind && left.text = right.text

/-- The token in a message. -/
def describe (token : Token) : String :=
  match token.kind with
  | .eof => token.kind.name
  | _ => token.kind.name ++ "(" ++ token.text ++ ")"

/-- The token as it is written in a script. A string takes single quotes if it holds a double
quote. -/
def render (token : Token) : String :=
  match token.kind with
  | .eof => ""
  | .string =>
      if token.text.toList.contains '"' then "'" ++ token.text ++ "'"
      else "\"" ++ token.text ++ "\""
  | _ => token.text

end Token

end StackScript
