import LoxSyntax.Token

/-!
# Expressions

An expression is a literal, an operator with one or two operands, or an expression in parentheses.  Every node carries
a piece of information, such as the span that it was read from; what an expression means does not depend on it.

* `map_map`: changing the information twice is changing it once.
* `height_map`, `entries_map`: the shape of an expression does not depend on the information.
-/

namespace LoxSyntax

/-- A syntax tree whose nodes carry values of type `α`. -/
inductive Expr (α : Type) where
  | literal (info : α) (value : Literal)
  | unary (info : α) (operator : Token) (operand : Expr α)
  | binary (info : α) (left : Expr α) (operator : Token) (right : Expr α)
  | grouping (info : α) (inner : Expr α)
  deriving DecidableEq

namespace Expr

variable {α β γ : Type}

/-- The information at the root. -/
def info : Expr α → α
  | literal i _ => i
  | unary i _ _ => i
  | binary i _ _ _ => i
  | grouping i _ => i

/-- Change the information at every node. -/
def map (f : α → β) : Expr α → Expr β
  | literal i v => literal (f i) v
  | unary i op e => unary (f i) op (e.map f)
  | binary i l op r => binary (f i) (l.map f) op (r.map f)
  | grouping i e => grouping (f i) (e.map f)

/-- How many nodes the longest path from the root has. -/
def height : Expr α → Nat
  | literal _ _ => 1
  | unary _ _ e => e.height + 1
  | binary _ l _ r => max l.height r.height + 1
  | grouping _ e => e.height + 1

/-- How many calls are nested while the fields of a node are listed: the iterator, the look-up of the fields that its
class has, and what goes through these. -/
def fieldCalls : Nat := 3

/-- What a node is, without its operands. -/
inductive Label where
  | literal (value : Literal)
  | unary (operator : Token)
  | binary (operator : Token)
  | grouping
  deriving DecidableEq

/-- A node in a list of nodes: how many nodes are above it, what it is, and its information. -/
structure Entry (α : Type) where
  depth : Nat
  label : Label
  info : α

/-- The nodes of an expression that has `depth` nodes above it: each node comes before its operands, and these come
from left to right. -/
def entriesFrom (depth : Nat) : Expr α → List (Entry α)
  | literal i v => [⟨depth, .literal v, i⟩]
  | unary i op e => ⟨depth, .unary op, i⟩ :: e.entriesFrom (depth + 1)
  | binary i l op r => ⟨depth, .binary op, i⟩ :: (l.entriesFrom (depth + 1) ++ r.entriesFrom (depth + 1))
  | grouping i e => ⟨depth, .grouping, i⟩ :: e.entriesFrom (depth + 1)

/-- The nodes of an expression. -/
def entries (e : Expr α) : List (Entry α) := e.entriesFrom 0

theorem map_map (f : α → β) (g : β → γ) (e : Expr α) : (e.map f).map g = e.map (g ∘ f) := by
  induction e with
  | literal i v => rfl
  | unary i op e ih => simp [map, ih]
  | binary i l op r ihl ihr => simp [map, ihl, ihr]
  | grouping i e ih => simp [map, ih]

theorem info_map (f : α → β) (e : Expr α) : (e.map f).info = f e.info := by
  cases e <;> rfl

theorem height_map (f : α → β) (e : Expr α) : (e.map f).height = e.height := by
  induction e with
  | literal i v => rfl
  | unary i op e ih => simp [map, height, ih]
  | binary i l op r ihl ihr => simp [map, height, ihl, ihr]
  | grouping i e ih => simp [map, height, ih]

theorem entries_map (f : α → β) (e : Expr α) :
    (e.map f).entries = e.entries.map fun n => ⟨n.depth, n.label, f n.info⟩ := by
  have key : ∀ d, (e.map f).entriesFrom d = (e.entriesFrom d).map fun n => ⟨n.depth, n.label, f n.info⟩ := by
    induction e with
    | literal i v => intro d; rfl
    | unary i op e ih => intro d; simp [map, entriesFrom, ih]
    | binary i l op r ihl ihr => intro d; simp [map, entriesFrom, ihl, ihr]
    | grouping i e ih => intro d; simp [map, entriesFrom, ih]
  exact key 0

end Expr

end LoxSyntax
