import LoxSyntax.Decimal.Layout
import LoxSyntax.Text.Quoted

/-!
# Literal values

A literal is `null`, a truth value, a number or a text.  Two comparisons are needed.  `Literal.same` tells values of
different types apart.  `Literal.agree` does not tell a truth value from the number, zero or one, that stands for it.
Both compare numbers by value, so that the two zeros are equal.

* `agree_of_same`: literals that are the same agree.
-/

namespace LoxSyntax

/-- A literal value; tokens that stand for no value carry `null`. -/
inductive Literal where
  | null
  | bool (b : Bool)
  | number (x : Float)
  | text (s : String)
  deriving DecidableEq

namespace Literal

/-- The number that stands for a truth value. -/
def boolNumber (b : Bool) : Float := if b then 1.0 else 0.0

/-- Whether two literals have the same type and value. -/
def same : Literal → Literal → Bool
  | null, null => true
  | bool a, bool b => a == b
  | number x, number y => x == y
  | text s, text t => s == t
  | _, _ => false

/-- Whether two literals have the same value when a truth value counts as a number. -/
def agree : Literal → Literal → Bool
  | bool a, number y => boolNumber a == y
  | number x, bool b => x == boolNumber b
  | a, b => same a b

/-- The text of a literal in a printed tree. -/
def display : Literal → String
  | null => "null"
  | bool b => if b then "true" else "false"
  | number x => Decimal.showFloat x
  | text s => s

/-- The text of a literal in a record of a token. -/
def record : Literal → String
  | null => "None"
  | bool b => if b then "True" else "False"
  | number x => Decimal.showFloat x
  | text s => s

/-- A literal as it is inspected: a text stands in quotes. -/
def inspect : Literal → String
  | text s => Text.quote s
  | l => l.record

theorem agree_of_same {a b : Literal} (h : a.same b = true) : a.agree b = true := by
  cases a <;> cases b <;> simp_all [same, agree]

end Literal

end LoxSyntax
