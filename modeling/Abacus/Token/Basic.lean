import Abacus.Source.Position

/-!
# Tokens

A token is a piece of source text with its kind and the span it was read from. The literal of a token is the
text that counts; for a quoted text it is what stands between the quotes.
-/

namespace Abacus

inductive TokenKind where
  | endOfInput
  | illegal
  | integer
  | quotedText
  | identifier
  | plus
  | minus
  | asterisk
  | slash
  | assign
  | less
  | greater
  | comma
  | colon
  | semicolon
  | leftParen
  | rightParen
  | leftBrace
  | rightBrace
  | typeWord
  | bindingWord
  | functionWord
  deriving DecidableEq, Inhabited

namespace TokenKind

def all : List TokenKind :=
  [endOfInput, illegal, integer, quotedText, identifier, plus, minus, asterisk, slash, assign, less,
    greater, comma, colon, semicolon, leftParen, rightParen, leftBrace, rightBrace, typeWord, bindingWord,
    functionWord]

def reserved? : String → Option TokenKind
  | "fn" => some functionWord
  | "var" => some bindingWord
  | "val" => some bindingWord
  | "string" => some typeWord
  | _ => none

/-- The kind of a word: the kind it is reserved for, else an identifier. -/
def ofWord (word : String) : TokenKind :=
  (reserved? word).getD identifier

/-- The kind of a character that is a token by itself. -/
def ofPunctuation? : Char → Option TokenKind
  | '=' => some assign
  | ';' => some semicolon
  | ':' => some colon
  | '(' => some leftParen
  | ')' => some rightParen
  | '<' => some less
  | '>' => some greater
  | ',' => some comma
  | '{' => some leftBrace
  | '}' => some rightBrace
  | '+' => some plus
  | '-' => some minus
  | '*' => some asterisk
  | '/' => some slash
  | _ => none

/-- The signs that may stand before an integer. -/
def isSign : TokenKind → Bool
  | plus => true
  | minus => true
  | _ => false

end TokenKind

structure Token where
  kind : TokenKind
  literal : String
  span : Span
  deriving DecidableEq, Inhabited

namespace Token

/-- The token that stands for the end of the input at a position. -/
def endOfInput (position : Position) : Token :=
  ⟨.endOfInput, "", .empty position⟩

def position (token : Token) : Position :=
  token.span.start

/-- How a token is named in a message. -/
def display (token : Token) : String :=
  if token.kind = .endOfInput then "EndOfInput" else token.literal

def isOneOf (token : Token) (kinds : List TokenKind) : Bool :=
  kinds.contains token.kind

def isSign (token : Token) : Bool :=
  token.kind.isSign

end Token

end Abacus
