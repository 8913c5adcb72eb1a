import LoxSyntax.Session

/-!
# A sample

A small program, its tokens and its expression, as a report with a heading over each part.
-/

namespace LoxSyntax.Sample

/-- The program: the text of its string literal has a backslash and a letter. -/
def program : String :=
  "\n-123 * (45.67) >= \"a\\tb\" // comparing a number with a string is fine for a parser\n"

/-- A heading between two rules. -/
def heading (title : String) : String :=
  let rule := String.ofList (List.replicate 25 '=') ++ "\n"
  rule ++ title ++ "\n" ++ rule

/-- The tokens of the program, inspected one on each line. -/
def tokenLines : String :=
  String.join ((Lexed.ofProgram program).tokens.map fun t => t.inspect ++ "\n")

/-- The printed expression of the program. -/
def treeLine (limits : Limits) : String :=
  (((Parsed.ofProgram limits.parsing program).tree?.bind (Expr.printed? limits.printing)).getD "") ++ "\n"

/-- The whole report. -/
def report (limits : Limits) : String :=
  heading "Tokens:" ++ tokenLines ++ heading "Tree:" ++ treeLine limits

end LoxSyntax.Sample
