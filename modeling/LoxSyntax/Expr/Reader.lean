import LoxSyntax.Cursor
import LoxSyntax.Diagnostic.Log
import LoxSyntax.Expr.Assembly
import LoxSyntax.Token.Reader

/-!
# Reading expressions

An expression reader is a place in a list of tokens, together with the mistakes found so far.  The token that ends the
input is never passed.  Parsing reads one expression that takes up all tokens before the first such token, and which is
not nested more deeply than a limit allows.
-/

namespace LoxSyntax

/-- Tokens that are being read. -/
structure ExprReader where
  program : String
  cursor : Cursor Token := Cursor.atStart []
  log : Log := []

namespace ExprReader

/-- Why an operation was refused. -/
inductive Fault where
  /-- there is no token at the place -/
  | noToken
  /-- a mistake was found, and is in the log -/
  | mistaken
  deriving DecidableEq, Repr

/-- The reason in words. -/
def Fault.message : Fault → String
  | noToken => "list index out of range"
  | mistaken => ""

/-- What an operation gives, or why it was refused, and the reader that it leaves. -/
abbrev Outcome (α : Type) := Except Fault α × ExprReader

/-- How many tokens are before the place. -/
def current (r : ExprReader) : Nat := r.cursor.offset

/-- How many tokens there are. -/
def count (r : ExprReader) : Nat := r.cursor.size

/-- Read other tokens, from the first one on. -/
def load (r : ExprReader) (tokens : List Token) : ExprReader :=
  { r with cursor := Cursor.atStart tokens }

/-- Read the tokens of a program, whose mistakes go into the log. -/
def loadProgram (r : ExprReader) (program : String) : ExprReader :=
  let lexed := Lexed.ofProgram program
  { r with cursor := Cursor.atStart lexed.tokens, log := r.log ++ lexed.errors }

/-- The span of a token that stands in a program, or else an empty span on its line. -/
def errorSpan (t : Token) : Span :=
  if t.span.start.line < 1 then Span.atLine t.line else t.span

/-- Add a mistake at a token to the log. -/
def addError (r : ExprReader) (t : Token) (reason : String) : ExprReader :=
  { r with log := r.log ++ [⟨r.program, errorSpan t, .malformed t reason⟩] }

/-- The token at the place. -/
def peek? (r : ExprReader) : Option Token := r.cursor.after.head?

/-- The token before the place; at the start, the first one. -/
def previous? (r : ExprReader) : Option Token := r.cursor.before.head?.or r.cursor.after.head?

/-- An optional token as an outcome. -/
def given (r : ExprReader) (t : Option Token) : Outcome Token :=
  match t with
  | some t => (.ok t, r)
  | none => (.error .noToken, r)

/-- The token at the place. -/
def peek (r : ExprReader) : Outcome Token := r.given r.peek?

/-- The token before the place. -/
def previous (r : ExprReader) : Outcome Token := r.given r.previous?

/-- Whether the place is at the end of the input. -/
def atEnd (r : ExprReader) : Outcome Bool :=
  match r.peek? with
  | none => (.error .noToken, r)
  | some t => (.ok t.isEnd, r)

/-- Move past the token at the place, unless it ends the input, and give the one before the place. -/
def advance (r : ExprReader) : Outcome Token :=
  match r.peek? with
  | none => (.error .noToken, r)
  | some t => if t.isEnd then r.previous else { r with cursor := r.cursor.next }.previous

/-- Whether the token at the place has a kind; the one that ends the input is not asked for its kind. -/
def check (r : ExprReader) (kind : Kind) : Outcome Bool :=
  match r.peek? with
  | none => (.error .noToken, r)
  | some t => (.ok (!t.isEnd && t.kind == kind), r)

/-- Move past the token at the place if it has one of some kinds. -/
def accept (r : ExprReader) (kinds : List Kind) : Outcome Bool :=
  if kinds.isEmpty then (.ok false, r)
  else match r.peek? with
    | none => (.error .noToken, r)
    | some t =>
      if !t.isEnd && kinds.contains t.kind then (.ok true, { r with cursor := r.cursor.next }) else (.ok false, r)

/-- Move past the token at the place and give it; it is a mistake if it has another kind. -/
def consume (r : ExprReader) (kind : Kind) (reason : String) : Outcome Token :=
  match r.peek? with
  | none => (.error .noToken, r)
  | some t =>
    if !t.isEnd && t.kind == kind then r.advance else (.error .mistaken, r.addError t reason)

/-- Read an expression of at least a level. -/
def readExpr (r : ExprReader) (limit level : Nat) : Outcome (Expr Span) :=
  let (verdict, rest) := Assembly.run limit level {} r.cursor.after
  let moved := { r with cursor := r.cursor.skip (r.cursor.after.length - rest.length) }
  match verdict with
  | .accepted e => (.ok e, moved)
  | .rejected t why => (.error .mistaken, moved.addError t why.message)
  | .exhausted => (.error .noToken, moved)

/-- Tokens that end with the one that ends the input; if it is missing it comes on the line of the last token. -/
def terminated (tokens : List Token) : List Token :=
  match tokens.getLast? with
  | none => [Token.endOfInput 1]
  | some t => if t.isEnd then tokens else tokens ++ [Token.endOfInput t.line]

/-- Read one expression that takes up all tokens; nothing if there is a mistake. -/
def parse (r : ExprReader) (limit : Nat) (tokens : List Token) : Outcome (Option (Expr Span)) :=
  match (r.load (terminated tokens)).readExpr limit loosestLevel with
  | (.error .mistaken, r') => (.ok none, r')
  | (.error .noToken, r') => (.error .noToken, r')
  | (.ok e, r') =>
    match r'.peek? with
    | none => (.error .noToken, r')
    | some t =>
      if t.isEnd then (.ok (some e), r') else (.ok none, r'.addError t Rejection.expectEnd.message)

/-- Read one expression that takes up a program, whose mistakes go into the log first. -/
def parseProgram (r : ExprReader) (limit : Nat) (program : String) : Outcome (Option (Expr Span)) :=
  let lexed := Lexed.ofProgram program
  { r with log := r.log ++ lexed.errors }.parse limit lexed.tokens

/-! ### Histories -/

/-- An operation on a reader. -/
inductive Action where
  | load (tokens : List Token)
  | loadProgram (program : String)
  | parse (tokens : List Token)
  | parseProgram (program : String)
  | readExpr (level : Nat)
  | peek
  | previous
  | advance
  | atEnd
  | check (kind : Kind)
  | accept (kinds : List Kind)
  | consume (kind : Kind) (reason : String)
  | addError (token : Token) (reason : String)

/-- What an operation answers. -/
inductive Answer where
  | done
  | tree (e : Option (Expr Span))
  | token (t : Token)
  | flag (b : Bool)
  /-- a mistake was added to the log -/
  | mistake

/-- An outcome with an answer in the place of a value. -/
def Outcome.answer {α : Type} (f : α → Answer) (o : Outcome α) : Outcome Answer := (o.1.map f, o.2)

/-- Perform an operation. -/
def perform (r : ExprReader) (limit : Nat) : Action → Outcome Answer
  | .load tokens => (.ok .done, r.load tokens)
  | .loadProgram program => (.ok .done, r.loadProgram program)
  | .parse tokens => Outcome.answer .tree (r.parse limit tokens)
  | .parseProgram program => Outcome.answer .tree (r.parseProgram limit program)
  | .readExpr level => Outcome.answer (fun e => .tree (some e)) (r.readExpr limit level)
  | .peek => Outcome.answer .token r.peek
  | .previous => Outcome.answer .token r.previous
  | .advance => Outcome.answer .token r.advance
  | .atEnd => Outcome.answer .flag r.atEnd
  | .check kind => Outcome.answer .flag (r.check kind)
  | .accept kinds => Outcome.answer .flag (r.accept kinds)
  | .consume kind reason => Outcome.answer .token (r.consume kind reason)
  | .addError token reason => (.ok .mistake, r.addError token reason)

end ExprReader

/-- The expression that the tokens of a program form, if they do, and the mistakes found. -/
structure Parsed where
  tree? : Option (Expr Span)
  errors : Log

/-- Parse tokens as part of a program. -/
def Parsed.ofTokens (limit : Nat) (program : String) (tokens : List Token) : Parsed :=
  match ({ program := program } : ExprReader).parse limit tokens with
  | (.ok tree?, r) => ⟨tree?, r.log⟩
  | (.error _, r) => ⟨none, r.log⟩

/-- Parse a program: the mistakes in its tokens come before the one in its grammar. -/
def Parsed.ofProgram (limit : Nat) (program : String) : Parsed :=
  let lexed := Lexed.ofProgram program
  let parsed := Parsed.ofTokens limit program lexed.tokens
  ⟨parsed.tree?, lexed.errors ++ parsed.errors⟩

end LoxSyntax
