import Lookahead.Position

/-! Tokens: a kind, the text it was read from and the place of its first character. -/

namespace Lookahead

/-- The category of a token. -/
inductive TokenKind where
  | keyword
  | operator
  | punctuation
  | identifier
  | integer
  | float
  /-- A character that no rule matched. -/
  | invalid
  /-- The record that closes a stream. -/
  | eof
  deriving DecidableEq, Repr

namespace TokenKind

/-- The name of a kind in reports. -/
def label : TokenKind → String
  | keyword => "KEYWORD"
  | operator => "OPERATOR"
  | punctuation => "PUNCTUATION"
  | identifier => "IDENTIFIER"
  | integer => "INTEGER_LITERAL"
  | float => "FLOAT_LITERAL"
  | invalid => "ERROR"
  | eof => "EOF"

end TokenKind

/-- A piece of text with its category and the place of its first character. -/
structure Token where
  kind : TokenKind
  source : String
  pos : Position
  deriving DecidableEq, Repr

namespace Token

/-- The record that closes a stream: it has no text. -/
def closing (pos : Position) : Token := ⟨.eof, "", pos⟩

def isEof (t : Token) : Bool := t.kind = .eof

end Token
end Lookahead
