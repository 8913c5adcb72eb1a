import LoxSyntax.Literal
import LoxSyntax.Span
import LoxSyntax.Token.Kind

/-!
# Tokens

A token is a lexeme with its kind, the literal that it stands for, the line that it ends on and its span.  The span
says where the token is and not what it is: tokens at different columns may be equal.
-/

namespace LoxSyntax

/-- A lexeme of a program. -/
structure Token where
  kind : Kind
  lexeme : String
  literal : Literal := .null
  line : Int := 1
  span : Span := Span.nowhere
  deriving DecidableEq

namespace Token

/-- Whether two tokens have the same kind, lexeme and line, and literals that agree or are `shared`, which means that
they are one object. -/
def same (a b : Token) (shared : Bool) : Bool :=
  a.lexeme == b.lexeme && a.kind == b.kind && (shared || a.literal.agree b.literal) && a.line == b.line

/-- The end of the input, on a line of no program. -/
def endOfInput (line : Int) : Token := ⟨.endOfInput, "", .null, line, Span.nowhere⟩

/-- Whether a token ends the input. -/
def isEnd (t : Token) : Bool := t.kind == .endOfInput

/-- A token with all that is compared. -/
def inspect (t : Token) : String :=
  "Token(lexeme=" ++ Text.quote t.lexeme ++ ", type=" ++ t.kind.inspect ++ ", literal=" ++ t.literal.inspect
    ++ ", line=" ++ Decimal.showInt t.line ++ ")"

/-- A token on a line of its own: the name of its kind, its lexeme and its literal. -/
def record (t : Token) : String :=
  t.kind.name ++ " " ++ t.lexeme ++ " " ++ t.literal.record

end Token

end LoxSyntax
