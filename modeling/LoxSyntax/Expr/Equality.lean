import LoxSyntax.Expr

/-!
# Equality and containment of expressions

Two expressions are the same when they have one shape, the same literals and the same operators; where they stand in a
program has no effect.  An expression contains the ones that are the same as itself or contained in an operand.  What is
one object in two places is not looked into, and what is not equal to itself, such as a number that is none, is still
the same as itself when it is one object.  Both comparisons nest calls on the way down and fail when there are too many.

* `same?_of_lt`, `contains?_of_none`: a comparison with too few calls, and a search that begins with one.
* `contains?_of_same?`: an expression contains whatever is the same as it.
-/

namespace LoxSyntax.Expr

/-- Which objects a node and its literal, or the literal of its operator, are: two nodes have one object in common if
they have the same number for it. -/
structure Objects where
  node : Nat
  literal : Nat
  deriving DecidableEq, Repr

/-- Whether two literals are one object. -/
def Objects.shares (i j : Objects) (v w : Literal) : Bool := decide (i.literal = j.literal ∧ v = w)

/-- Whether two values are one object or the same. -/
def sameValue (i j : Objects) (v w : Literal) : Bool := i.shares j v w || v.same w

/-- Whether two operators are the same. -/
def sameOperator (i j : Objects) (s t : Token) : Bool := s.same t (i.shares j s.literal t.literal)

/-! ### Equality -/

/-- How many calls are nested at a node that is compared: the comparison, what it calls for nodes of this class, and the
comparison of their fields.  Operators and values nest hardly more than an operand does, and are not counted. -/
def sameCalls : Nat := 3

/-- Whether two operands are the same, if it has to be found out: one object is not compared with itself. -/
def sameOperand? (e e' : Expr Objects) (compared : Option Bool) : Option Bool :=
  if e = e' then some true else compared

/-- Whether two expressions are the same, unless more than `limit` calls are nested. -/
def same? : (limit : Nat) → Expr Objects → Expr Objects → Option Bool
  | limit, literal i v, literal j w => if limit < sameCalls then none else some (sameValue i j v w)
  | limit, unary i op e, unary j op' e' =>
    if limit < sameCalls then none
    else if sameOperator i j op op' then sameOperand? e e' (same? (limit - sameCalls) e e')
    else some false
  | limit, binary i l op r, binary j l' op' r' =>
    if limit < sameCalls then none
    else do
      if ← sameOperand? l l' (same? (limit - sameCalls) l l') then
        if sameOperator i j op op' then sameOperand? r r' (same? (limit - sameCalls) r r') else return false
      else return false
  | limit, grouping _ e, grouping _ e' =>
    if limit < sameCalls then none else sameOperand? e e' (same? (limit - sameCalls) e e')
  | limit, _, _ => if limit < sameCalls then none else some false

theorem same?_of_lt {limit : Nat} (few : limit < sameCalls) (a b : Expr Objects) : same? limit a b = none := by
  cases a <;> cases b <;> simp [same?, few]

/-! ### Containment -/

/-- How many calls are nested around the search in an operand: that in the expression itself, and two to go through its
operands. -/
def containsCalls : Nat := 3

/-- Whether `x` is the same as an expression, or else what is found below it with the limit that is left there. -/
def sameOr? (limit : Nat) (e x : Expr Objects) (below : (limit : Nat) → Option Bool) : Option Bool :=
  if limit = 0 then none
  else do
    if ← same? (limit - 1) e x then return true
    else if limit < containsCalls + fieldCalls then none
    else below (limit - containsCalls)

/-- Whether an expression or one below it is the same as `x`, unless more than `limit` calls are nested. -/
def contains? (limit : Nat) (e x : Expr Objects) : Option Bool :=
  match e with
  | literal i v => sameOr? limit (literal i v) x fun _ => some false
  | unary i op e => sameOr? limit (unary i op e) x fun limit => contains? limit e x
  | binary i l op r => sameOr? limit (binary i l op r) x fun limit => do
    if ← contains? limit l x then return true else contains? limit r x
  | grouping i e => sameOr? limit (grouping i e) x fun limit => contains? limit e x

theorem contains?_of_none {limit : Nat} {e x : Expr Objects} (h : same? (limit - 1) e x = none) :
    contains? limit e x = none := by
  cases e <;> simp [contains?, sameOr?, h]

theorem contains?_of_same? {limit : Nat} {e x : Expr Objects} (h : same? limit e x = some true) :
    contains? (limit + 1) e x = some true := by
  cases e <;> simp [contains?, sameOr?, h]

end LoxSyntax.Expr
