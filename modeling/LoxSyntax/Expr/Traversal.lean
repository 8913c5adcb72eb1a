import LoxSyntax.Expr

/-!
# Traversals

A traversal visits the nodes and operators of an expression from the root on, operands and operators from left to
right.  For every class of things that it meets it may have a handler; a handler makes a record, and either stops
there or goes on one level deeper.  Without a handler the traversal goes on at the same level.  Every step down nests
calls, and a traversal fails when more calls are nested than its limit allows.

* `handle?_of_lt`: a traversal fails when a single thing takes more calls than there can be.
-/

namespace LoxSyntax.Expr

variable {α : Type}

/-- The classes of things that a traversal meets. -/
inductive Class where
  | literal
  | unary
  | binary
  | grouping
  | operator
  deriving DecidableEq, Repr

/-- All classes. -/
def Class.all : List Class := [literal, unary, binary, grouping, operator]

/-- The name of a class. -/
def Class.name : Class → String
  | literal => "LiteralNode"
  | unary => "UnaryNode"
  | binary => "BinaryNode"
  | grouping => "GroupingNode"
  | operator => "Token"

/-- The class of a name. -/
def Class.ofName? (s : String) : Option Class := all.find? (·.name == s)

/-- The class of a node. -/
def Label.class : Label → Class
  | .literal _ => .literal
  | .unary _ => .unary
  | .binary _ => .binary
  | .grouping => .grouping

/-- What a handler does after its record. -/
inductive Handling where
  | stop
  | descend
  deriving DecidableEq, Repr

/-- Which classes have a handler. -/
abbrev Handlers := Class → Option Handling

/-- A visit: the class of what was met, its text, and the level. -/
structure Visit where
  kind : Class
  label : String
  depth : Nat
  deriving DecidableEq, Repr

/-! ### Nested calls -/

/-- How many calls are nested around the visits of what is below a thing.  These are the visit of the thing itself and
the default for its class; a handler that goes on comes between the two. -/
def callsAround : Option Handling → Nat
  | some .descend => 3
  | _ => 2

/-- How many calls are nested for a thing alone, when it takes so many to list its fields.  A handler that stops lists
none. -/
def callsFor (fields : Nat) : Option Handling → Nat
  | some .stop => 2
  | handling => callsAround handling + fields

/-! ### Visits -/

/-- The visits of a thing at a level, when `below` gives those of what is below it with another limit and at another
level. -/
def handle? (h : Handlers) (limit : Nat) (kind : Class) (label : String) (depth fields : Nat)
    (below : (limit depth : Nat) → Option (List Visit)) : Option (List Visit) :=
  if limit < callsFor fields (h kind) then none
  else match h kind with
    | none => below (limit - callsAround none) depth
    | some .stop => some [⟨kind, label, depth⟩]
    | some .descend => (below (limit - callsAround (some .descend)) (depth + 1)).map (⟨kind, label, depth⟩ :: ·)

theorem handle?_of_lt {h : Handlers} {limit fields : Nat} {kind : Class} (few : limit < callsFor fields (h kind))
    (label : String) (depth : Nat) (below : (limit depth : Nat) → Option (List Visit)) :
    handle? h limit kind label depth fields below = none :=
  if_pos few

/-- The visits of an operator, which has no fields to visit. -/
def visitOperator? (h : Handlers) (limit depth : Nat) (op : Token) : Option (List Visit) :=
  handle? h limit .operator op.lexeme depth 0 fun _ _ => some []

/-- The visits of an expression, which is met at a level; `limit` calls can be nested below it. -/
def visitFrom? (h : Handlers) : Expr α → (limit depth : Nat) → Option (List Visit)
  | literal _ v, limit, depth => handle? h limit .literal v.display depth fieldCalls fun _ _ => some []
  | unary _ op e, limit, depth => handle? h limit .unary op.lexeme depth fieldCalls fun limit d => do
    return (← visitOperator? h limit d op) ++ (← visitFrom? h e limit d)
  | binary _ l op r, limit, depth => handle? h limit .binary op.lexeme depth fieldCalls fun limit d => do
    return (← visitFrom? h l limit d) ++ (← visitOperator? h limit d op) ++ (← visitFrom? h r limit d)
  | grouping _ e, limit, depth => handle? h limit .grouping "" depth fieldCalls fun limit d => visitFrom? h e limit d

/-- The visits of an expression, unless more than `limit` calls are nested. -/
def visit? (h : Handlers) (limit : Nat) (e : Expr α) : Option (List Visit) := visitFrom? h e limit 0

end LoxSyntax.Expr
