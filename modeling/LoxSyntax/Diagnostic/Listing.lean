import LoxSyntax.Span
import LoxSyntax.Text.Lines
import LoxSyntax.Text.Slice

/-!
# Listings

A listing shows the lines of a program around a span.  Every line is labelled with its number, the labels are
aligned to the right, and on the lines of the span the part inside the span is coloured.

* `marked_text`: on a coloured line the text before, inside and after the colour make up the line, when the columns of
  the span are in order on it.
-/

namespace LoxSyntax

/-- What a listing is headed and followed by, how many lines it shows around its span, and its colour. -/
structure Listing where
  title : String := "CompilerError"
  before : String := ""
  after : String := ""
  linesBefore : Int := 1
  linesAfter : Int := 1
  color : String := "\x1b[31m"
  deriving DecidableEq, Repr

namespace Listing

/-- The code that ends a colour. -/
def colorEnd : String := "\x1b[m"

/-- What is shown of a line. -/
inductive Content where
  /-- a line outside the span -/
  | plain (line : List Char)
  /-- a line of the span: the text before, inside and after it -/
  | marked (before inside after : List Char)
  deriving DecidableEq, Repr

/-- A numbered line of a listing. -/
structure Row where
  number : Int
  content : Content
  deriving DecidableEq, Repr

/-- The line that a row shows. -/
def Content.text : Content → List Char
  | .plain line => line
  | .marked before inside after => before ++ inside ++ after

/-- The content for line number `i`: the span covers its columns on its first and last line, and whole lines between
them. -/
def contentOf (span : Span) (i : Int) (line : List Char) : Content :=
  if span.start.line ≤ i ∧ i ≤ span.stop.line then
    let lo := if i = span.start.line then span.start.column else 0
    let hi := if i = span.stop.line then span.stop.column else line.length
    .marked (Text.sliceTo line lo) (Text.slice line lo hi) (Text.sliceFrom line hi)
  else .plain line

/-- Lines numbered from `i` on. -/
def number (span : Span) : (i : Int) → List (List Char) → List Row
  | _, [] => []
  | i, line :: rest => ⟨i, contentOf span i line⟩ :: number span (i + 1) rest

/-- The number of the first line that a listing shows. -/
def firstLine (l : Listing) (span : Span) : Int := max 1 (span.start.line - l.linesBefore)

/-- The rows of a listing. -/
def rows (l : Listing) (program : List Char) (span : Span) : List Row :=
  let first := l.firstLine span
  number span first (Text.slice (Text.lines program) (first - 1) (span.stop.line + l.linesAfter))

/-- The greatest width of a label: that of the last row. -/
def labelWidth (rows : List Row) : Nat :=
  match rows.getLast? with
  | none => 0
  | some r => (Decimal.showInt r.number).length

/-- A row as it is shown. -/
def showRow (color : String) (width : Nat) (r : Row) : String :=
  let label := Decimal.showInt r.number
  let aligned := String.ofList (List.replicate (width - label.length) ' ') ++ label ++ ". "
  match r.content with
  | .plain line => "   " ++ aligned ++ String.ofList line
  | .marked before inside after =>
    "-> " ++ aligned ++ String.ofList before ++ color ++ String.ofList inside ++ colorEnd ++ String.ofList after

/-- The text of a listing. -/
def render (l : Listing) (program : String) (span : Span) : String :=
  let rows := l.rows program.toList span
  let shown := rows.map (showRow l.color (labelWidth rows))
  let head := l.title ++ ": " ++ l.before
  let head := if shown.isEmpty then head else head ++ "\n" ++ String.intercalate "\n" shown
  if l.after = "" then head else head ++ "\n" ++ l.after

theorem marked_text {line : List Char} {lo hi : Int}
    (h : Text.bound line.length lo ≤ Text.bound line.length hi) :
    (Content.marked (Text.sliceTo line lo) (Text.slice line lo hi) (Text.sliceFrom line hi)).text = line :=
  Text.slice_append line h

end Listing

end LoxSyntax
