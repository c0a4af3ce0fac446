/-!
Tokens: parentheses, quotes, atoms and string literals, each with the line it starts on and
whether anything separates it from the token before.
-/

namespace ChannelLisp

/-- What a token is. The text of a string literal has its escapes undone. -/
inductive Shape where
  | lparen
  | rparen
  | quote
  | atom (text : String)
  | string (text : String)
  /-- A string literal that the end of the source cuts off. -/
  | unterminated
  /-- The end of the source, the last token and only there. -/
  | eof
deriving DecidableEq, Repr

structure Token where
  shape : Shape
  line : Nat
  /-- Blanks or a comment stand before the token; true of the first and of the last one. -/
  spaced : Bool
deriving DecidableEq, Repr

def Shape.lexeme : Shape → String
  | .lparen => "("
  | .rparen => ")"
  | .quote => "'"
  | .atom s | .string s => s
  | .unterminated => "unterminated string literal"
  | .eof => ""

def Token.lexeme (t : Token) : String := t.shape.lexeme

def Token.shift (t : Token) (n : Nat) : Token := { t with line := t.line + n }

/-- Nothing separates the first token from the one before it. -/
def glued : List Token → Bool
  | t :: _ => !t.spaced
  | [] => false

end ChannelLisp
