import LoxSyntax.Cursor
import LoxSyntax.Decimal.Numeral
import LoxSyntax.Diagnostic.Log
import LoxSyntax.Text.Slice
import LoxSyntax.Token.Segment

/-!
# Reading tokens

A token reader is a place in a program together with the place where the current lexeme starts, and the tokens and
mistakes found so far.  Reading a token takes the segment at the place; reading all tokens does so up to the end of
the program and adds the token that ends the input.

* `after_consume`: consuming moves the place and nothing else moves it.
* `after_readToken`: a token that is read shortens the rest of the program, which is why reading ends.
-/

namespace LoxSyntax

/-- A program that is being read. -/
structure TokenReader where
  program : String
  cursor : Cursor Char
  /-- the offset where the current lexeme starts -/
  start : Nat := 0
  /-- the current line, counted from one -/
  line : Nat := 1
  /-- the offset where the current line starts -/
  lineStart : Nat := 0
  /-- the line of `start` -/
  startLine : Nat := 1
  /-- the column of `start` -/
  startColumn : Int := 0
  tokens : Array Token := #[]
  errors : Array Diagnostic := #[]

namespace TokenReader

/-- Why an operation was refused. -/
inductive Fault where
  /-- there is no further character -/
  | endOfText
  /-- the current lexeme is no number -/
  | notNumber (lexeme : String)
  deriving DecidableEq, Repr

/-- The reason in words. -/
def Fault.message : Fault → String
  | endOfText => "string index out of range"
  | notNumber lexeme => "could not convert string to float: " ++ Text.quote lexeme

/-- What an operation gives, or why it was refused, and the reader that it leaves. -/
abbrev Outcome (α : Type) := Except Fault α × TokenReader

/-- A reader at the start of a program. -/
def ofProgram (program : String) : TokenReader where
  program := program
  cursor := Cursor.atStart program.toList

/-- The offset of the place. -/
def current (r : TokenReader) : Nat := r.cursor.offset

/-- The program from the place on. -/
def remaining (r : TokenReader) : List Char := r.cursor.after

/-- Whether the whole program has been read. -/
def atEnd (r : TokenReader) : Bool := r.cursor.atEnd

/-- The current lexeme. -/
def lexeme (r : TokenReader) : String := String.ofList (r.cursor.behind r.start)

/-- The span of the current lexeme. -/
def span (r : TokenReader) : Span :=
  ⟨⟨r.startLine, r.startColumn⟩, ⟨r.line, (r.current : Int) - r.lineStart⟩⟩

/-- Start a lexeme at the place. -/
def begin (r : TokenReader) : TokenReader :=
  { r with start := r.current, startLine := r.line, startColumn := (r.current : Int) - r.lineStart }

/-- Start a line at the place. -/
def newline (r : TokenReader) : TokenReader :=
  { r with line := r.line + 1, lineStart := r.current }

/-- Move past a character, whatever it is. -/
def pass (r : TokenReader) : TokenReader := { r with cursor := r.cursor.next }

/-- Move past `n` characters, starting a line after every line feed. -/
def consume (r : TokenReader) : (n : Nat) → TokenReader
  | 0 => r
  | n + 1 =>
    match r.remaining with
    | [] => r
    | c :: _ => (if c = '\n' then r.pass.newline else r.pass).consume n

/-- Add a token with the current lexeme and span. -/
def addToken (r : TokenReader) (kind : Kind) (literal : Literal) : TokenReader :=
  { r with tokens := r.tokens.push ⟨kind, r.lexeme, literal, r.line, r.span⟩ }

/-- Add a mistake at the span of the current lexeme. -/
def addError (r : TokenReader) (cause : Cause) : TokenReader :=
  { r with errors := r.errors.push ⟨r.program, r.span, cause⟩ }

/-- The kind of a word. -/
def wordKind (word : String) : Kind := (Kind.reserved? word).getD .identifier

/-- Add what the current lexeme, of the given shape, stands for. -/
def emit (r : TokenReader) : Shape → Outcome Unit
  | .operator kind => (.ok (), r.addToken kind .null)
  | .word => (.ok (), r.addToken (wordKind r.lexeme) .null)
  | .number =>
    match Decimal.read? r.lexeme.toList with
    | some x => (.ok (), r.addToken .number (.number x))
    | none => (.error (.notNumber r.lexeme), r)
  | .string value => (.ok (), r.addToken .string (.text (String.ofList value)))
  | .blank | .comment => (.ok (), r)
  | .unexpected => (.ok (), r.addError .unexpectedCharacter)
  | .unterminated => (.ok (), r.addError .unterminatedString)

/-! ### Operations -/

/-- Move past a character and give it. -/
def advance (r : TokenReader) : Outcome Char :=
  match r.remaining with
  | [] => (.error .endOfText, r)
  | c :: _ => (.ok c, r.pass)

/-- Move past a character if it is the expected one. -/
def accept (r : TokenReader) (expected : Option Char) : Bool × TokenReader :=
  match r.remaining with
  | [] => (false, r)
  | c :: _ => if expected = some c then (true, r.pass) else (false, r)

/-- The character at a distance from the place, and none beyond the end of the program.  A place before the start
counts from the end. -/
def peek (r : TokenReader) (distance : Int) : Outcome (Option Char) :=
  let place := r.current + distance
  if r.cursor.size ≤ place then (.ok none, r)
  else match Text.at? r.cursor.toList place with
    | some c => (.ok (some c), r)
    | none => (.error .endOfText, r)

/-- Move past what is left of a line comment. -/
def lineComment (r : TokenReader) : TokenReader := r.consume (Segment.lineCommentLength r.remaining)

/-- Move past what is left of a block comment. -/
def blockComment (r : TokenReader) : TokenReader := r.consume (Segment.blockCommentLength r.remaining)

/-- Read what is left of a string literal.  No line starts after its closing quote. -/
def readString (r : TokenReader) (quote : Option Char) : Outcome Unit :=
  let b := Segment.body quote r.remaining
  let ending := r.consume b.length
  if b.closed then ending.pass.emit (.string b.value) else ending.emit .unterminated

/-- Read what is left of a number. -/
def readNumber (r : TokenReader) : Outcome Unit :=
  (r.consume (Segment.numberLength r.remaining)).emit .number

/-- Read what is left of a word. -/
def readWord (r : TokenReader) : Outcome Unit :=
  (r.consume (Segment.wordLength r.remaining)).emit .word

/-- Read the segment at the place. -/
def readToken (r : TokenReader) : Outcome Unit :=
  match r.remaining with
  | [] => (.error .endOfText, r)
  | c :: rest => (r.consume ((Segment.extent c rest).2 + 1)).emit (Segment.extent c rest).1

@[simp] theorem remaining_newline (r : TokenReader) : r.newline.remaining = r.remaining := rfl

theorem remaining_pass (r : TokenReader) : r.pass.remaining = r.remaining.drop 1 := Cursor.after_next r.cursor

theorem after_consume (r : TokenReader) (n : Nat) : (r.consume n).remaining = r.remaining.drop n := by
  induction n generalizing r with
  | zero => rfl
  | succ n ih =>
    rw [consume]
    split
    · rename_i h
      simp [h]
    · rename_i c rest h
      rw [ih]
      split
      · rw [remaining_newline, remaining_pass, h, List.drop_one, List.tail_cons, List.drop_succ_cons]
      · rw [remaining_pass, h, List.drop_one, List.tail_cons, List.drop_succ_cons]

theorem remaining_emit (r : TokenReader) (shape : Shape) : (r.emit shape).2.remaining = r.remaining := by
  cases shape with
  | number =>
    simp only [emit]
    split <;> rfl
  | _ => rfl

theorem after_readToken {r : TokenReader} {c : Char} {rest : List Char} (h : r.remaining = c :: rest) :
    r.readToken.2.remaining = rest.drop (Segment.extent c rest).2 := by
  unfold readToken
  simp [h, remaining_emit, after_consume]

theorem length_readToken_lt {r : TokenReader} (h : r.atEnd = false) :
    r.begin.readToken.2.remaining.length < r.remaining.length := by
  rcases hr : r.remaining with _ | ⟨c, rest⟩
  · simp [atEnd, Cursor.atEnd, show r.cursor.after = [] from hr] at h
  · have hb : r.begin.remaining = c :: rest := hr
    rw [after_readToken hb]
    exact Segment.drop_extent_length_lt c rest _

/-- Read tokens up to the end of the program. -/
def readSegments (r : TokenReader) : Outcome Unit :=
  if _h : r.atEnd then (.ok (), r)
  else
    match _hr : r.begin.readToken with
    | (.error e, r') => (.error e, r')
    | (.ok (), r') => readSegments r'
termination_by r.remaining.length
decreasing_by
  have := length_readToken_lt (by simpa using _h)
  rw [_hr] at this
  exact this

/-- Read all tokens, and add the one that ends the input; the result is how many tokens there are then. -/
def readAll (r : TokenReader) : Outcome Nat :=
  match r.readSegments with
  | (.error e, r') => (.error e, r')
  | (.ok (), r') =>
    let ended := r'.begin.addToken .endOfInput .null
    (.ok ended.tokens.size, ended)

/-! ### Histories -/

/-- An operation on a reader. -/
inductive Action where
  | readAll
  | begin
  | readToken
  | lineComment
  | blockComment
  | readString (quote : Option Char)
  | readNumber
  | readWord
  | newline
  | advance
  | accept (expected : Option Char)
  | peek (distance : Int)
  | atEnd
  | lexeme
  | span
  | addToken (kind : Kind) (literal : Literal)
  deriving DecidableEq

/-- What an operation answers. -/
inductive Answer where
  | done
  | count (n : Nat)
  | text (s : String)
  | flag (b : Bool)
  | span (s : Span)
  deriving DecidableEq

/-- An outcome with an answer in the place of a value. -/
def Outcome.answer {α : Type} (f : α → Answer) (o : Outcome α) : Outcome Answer := (o.1.map f, o.2)

/-- Perform an operation. -/
def perform (r : TokenReader) : Action → Outcome Answer
  | .readAll => Outcome.answer .count r.readAll
  | .begin => (.ok .done, r.begin)
  | .readToken => Outcome.answer (fun _ => .done) r.readToken
  | .lineComment => (.ok .done, r.lineComment)
  | .blockComment => (.ok .done, r.blockComment)
  | .readString quote => Outcome.answer (fun _ => .done) (r.readString quote)
  | .readNumber => Outcome.answer (fun _ => .done) r.readNumber
  | .readWord => Outcome.answer (fun _ => .done) r.readWord
  | .newline => (.ok .done, r.newline)
  | .advance => Outcome.answer (fun c => .text (String.singleton c)) r.advance
  | .accept expected => (.ok (.flag (r.accept expected).1), (r.accept expected).2)
  | .peek distance => Outcome.answer (fun c => .text (String.ofList c.toList)) (r.peek distance)
  | .atEnd => (.ok (.flag r.atEnd), r)
  | .lexeme => (.ok (.text r.lexeme), r)
  | .span => (.ok (.span r.span), r)
  | .addToken kind literal => (.ok .done, r.addToken kind literal)

end TokenReader

/-- The tokens of a program, the last of which ends the input, and the mistakes found while reading them. -/
structure Lexed where
  tokens : List Token
  errors : Log

/-- Read the tokens of a program. -/
def Lexed.ofProgram (program : String) : Lexed :=
  let r := (TokenReader.ofProgram program).readAll.2
  ⟨r.tokens.toList, r.errors.toList⟩

end LoxSyntax
