import LoxSyntax.Diagnostic.Listing
import LoxSyntax.Text.Quoted
import LoxSyntax.Token

/-!
# Diagnostics

A diagnostic is a mistake in a program: its cause and the span where it is.  It has a one-line form and a listing.
The two causes that only name a stage have no message, so that neither form exists for them.

* `lineAt?_of_pos`, `mem_lines_of_lineAt?`: a line of a text by its number.
* `message?_isSome_iff`: a diagnostic has a message unless its cause only names a stage.
* `summary?_isSome_iff`, `listing?_isSome_iff`: both forms exist exactly when there is a message.
-/

namespace LoxSyntax

/-- What is wrong with a program. -/
inductive Cause where
  /-- something that no stage has named -/
  | unspecified
  /-- something that the reading of tokens has not named -/
  | lexical
  /-- a character that begins no token -/
  | unexpectedCharacter
  /-- a string literal that is never closed -/
  | unterminatedString
  /-- a token where the grammar has none such, for a reason -/
  | malformed (token : Token) (reason : String)
  deriving DecidableEq

/-- A mistake in a program. -/
structure Diagnostic where
  program : String
  span : Span
  cause : Cause
  deriving DecidableEq

namespace Cause

/-- The name of a cause. -/
def name : Cause → String
  | unspecified => "CompilerError"
  | lexical => "ScannerError"
  | unexpectedCharacter => "UnexpectedCharacterError"
  | unterminatedString => "UnterminatedStringError"
  | malformed _ _ => "ParseError"

/-- The title of the listings of a cause. -/
def title : Cause → String
  | unspecified => "CompilerError"
  | lexical | unexpectedCharacter | unterminatedString => "ScannerError"
  | malformed _ _ => "SyntaxError"

/-- Whether a cause only names a stage. -/
def isUnnamed : Cause → Bool
  | unspecified | lexical => true
  | _ => false

/-- Where a cause is said to be: at its token, or at the end of the input. -/
def place : Cause → String
  | malformed t _ => if t.isEnd then " at end" else " at '" ++ t.lexeme ++ "'"
  | _ => ""

/-- Whether two causes are equal, with tokens compared as tokens are that share no literal. -/
def same : Cause → Cause → Bool
  | unspecified, unspecified => true
  | lexical, lexical => true
  | unexpectedCharacter, unexpectedCharacter => true
  | unterminatedString, unterminatedString => true
  | malformed t r, malformed t' r' => t.same t' false && r == r'
  | _, _ => false

end Cause

namespace Diagnostic

/-- The line of a diagnostic: that of its token, or the last one of its span. -/
def line (d : Diagnostic) : Int :=
  match d.cause with
  | .malformed t _ => t.line
  | _ => d.span.stop.line

/-- Line `n` of a text, counted from one. -/
def lineAt? (program : List Char) (n : Int) : Option (List Char) :=
  let lines := Text.lines program
  if 0 < n ∧ n ≤ lines.length then lines[n.toNat - 1]? else none

/-- The text between the columns of a diagnostic on the line where it starts. -/
def offending (d : Diagnostic) : String :=
  match lineAt? d.program.toList d.span.start.line with
  | none => ""
  | some l => String.ofList (Text.slice l d.span.start.column d.span.stop.column)

/-- What is wrong, in words. -/
def message? (d : Diagnostic) : Option String :=
  match d.cause with
  | .unspecified | .lexical => none
  | .unexpectedCharacter => some ("Unexpected character: " ++ Text.quote d.offending)
  | .unterminatedString => some "Unterminated string."
  | .malformed _ reason => some reason

/-- The one-line form. -/
def summary? (d : Diagnostic) : Option String :=
  d.message?.map fun m => "[line " ++ Decimal.showInt d.line ++ "] Error" ++ d.cause.place ++ ": " ++ m

/-- What a listing ends with.  A string that is never closed says where it starts, whatever remark is given; another
mistake at a token names the token's kind unless there is a remark. -/
def remark (d : Diagnostic) (given : String) : String :=
  match d.cause with
  | .unterminatedString =>
    "The string starting on " ++ d.span.describeLines ++ " column " ++ Decimal.showInt d.span.start.column
      ++ " was never closed."
  | .malformed t _ =>
    if given = "" then "Got " ++ t.kind.describe ++ " on line [" ++ Decimal.showInt t.line ++ "]." else given
  | _ => given

/-- The listing with a remark after it. -/
def listingWith? (d : Diagnostic) (given : String) : Option String :=
  d.message?.map fun m =>
    let l : Listing := { title := d.cause.title, before := m, after := d.remark given }
    l.render d.program d.span

/-- The listing. -/
def listing? (d : Diagnostic) : Option String := d.listingWith? ""

/-- A diagnostic with all its fields. -/
def inspect (d : Diagnostic) : String :=
  d.cause.name ++ "(program=" ++ Text.quote d.program ++ ", span=" ++ d.span.inspect
    ++ (match d.cause with
      | .malformed t reason => ", token=" ++ t.inspect ++ ", reason=" ++ Text.quote reason
      | _ => "")
    ++ ")"

/-- Whether two diagnostics are equal, with tokens compared as tokens are. -/
def same (a b : Diagnostic) : Bool :=
  a.program == b.program && a.span == b.span && a.cause.same b.cause

/-- No line stands behind the last one. -/
theorem lineAt?_of_pos (t : List Char) {n : Int} (h : 0 < n) : lineAt? t n = (Text.lines t)[n.toNat - 1]? := by
  unfold lineAt?
  dsimp only
  split
  · rfl
  · exact (List.getElem?_eq_none (by omega)).symm

theorem mem_lines_of_lineAt? {t line : List Char} {n : Int} (h : lineAt? t n = some line) : line ∈ Text.lines t := by
  unfold lineAt? at h
  dsimp only at h
  split at h
  · exact List.mem_of_getElem? h
  · cases h

theorem message?_isSome_iff (d : Diagnostic) : d.message?.isSome ↔ d.cause.isUnnamed = false := by
  unfold message?
  cases d.cause <;> simp [Cause.isUnnamed]

theorem summary?_isSome_iff (d : Diagnostic) : d.summary?.isSome ↔ d.cause.isUnnamed = false := by
  rw [← message?_isSome_iff, summary?, Option.isSome_map]

theorem listingWith?_isSome_iff (d : Diagnostic) (given : String) :
    (d.listingWith? given).isSome ↔ d.cause.isUnnamed = false := by
  rw [← message?_isSome_iff, listingWith?, Option.isSome_map]

theorem listing?_isSome_iff (d : Diagnostic) : d.listing?.isSome ↔ d.cause.isUnnamed = false :=
  listingWith?_isSome_iff d ""

end Diagnostic

end LoxSyntax
