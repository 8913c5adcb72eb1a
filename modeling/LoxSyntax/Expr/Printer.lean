import LoxSyntax.Expr

/-!
# Printing expressions

An expression is printed with every operator in front of its operands and in parentheses with them.  Every operand is
printed by calls of its own, and how many calls may be nested is limited.  An inspected expression shows the fields of
every node.

* `printed?_eq_some_iff`: an expression is printed exactly when the calls fit, and then as `render` says.
* `render_map`: the printed text does not depend on the information at the nodes.
-/

namespace LoxSyntax.Expr

variable {α β : Type}

/-- The printed form. -/
def render : Expr α → String
  | literal _ v => v.display
  | unary _ op e => "(" ++ op.lexeme ++ " " ++ e.render ++ ")"
  | binary _ l op r => "(" ++ op.lexeme ++ " " ++ l.render ++ " " ++ r.render ++ ")"
  | grouping _ e => "(group " ++ e.render ++ ")"

/-- How many calls are nested while an expression is printed: five for every node with operands, three for a literal,
and one more for the digits of a number. -/
def printingCalls : Expr α → Nat
  | literal _ (.number _) => 4
  | literal _ _ => 3
  | unary _ _ e => e.printingCalls + 5
  | binary _ l _ r => max l.printingCalls r.printingCalls + 5
  | grouping _ e => e.printingCalls + 5

/-- What is said of an expression that is nested too deeply for this. -/
def tooDeepToPrint : String := "Expression too deeply nested to print."

/-- The printed form of an expression when `limit` calls may be nested. -/
def printed? (limit : Nat) (e : Expr α) : Option String :=
  if e.printingCalls ≤ limit then some e.render else none

/-- An expression with the fields of its nodes. -/
def inspect : Expr α → String
  | literal _ v => "LiteralNode(value=" ++ v.inspect ++ ")"
  | unary _ op e => "UnaryNode(operator=" ++ op.inspect ++ ", operand=" ++ e.inspect ++ ")"
  | binary _ l op r =>
    "BinaryNode(left=" ++ l.inspect ++ ", operator=" ++ op.inspect ++ ", right=" ++ r.inspect ++ ")"
  | grouping _ e => "GroupingNode(expression=" ++ e.inspect ++ ")"

theorem render_map (f : α → β) (e : Expr α) : (e.map f).render = e.render := by
  induction e with
  | literal i v => rfl
  | unary i op e ih => simp [map, render, ih]
  | binary i l op r ihl ihr => simp [map, render, ihl, ihr]
  | grouping i e ih => simp [map, render, ih]

theorem printed?_eq_some_iff {limit : Nat} {e : Expr α} {s : String} :
    e.printed? limit = some s ↔ e.printingCalls ≤ limit ∧ e.render = s := by
  simp [printed?]

end LoxSyntax.Expr
