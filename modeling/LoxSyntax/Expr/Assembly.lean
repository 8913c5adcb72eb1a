import LoxSyntax.Expr

/-!
# Assembling expressions from tokens

An expression is assembled from its tokens in one pass.  What is begun and not finished is held in a stack of frames:
operators that wait for their right operand, and open parentheses.  An operator of some level finishes all pending
operators that bind at least as tightly, so that operators of one level associate to the left.

The levels are equality 1, comparison 2, term 3, factor 4, prefix operators 5, literals and parentheses 6.  An
expression may be asked for at any level: then operators of lower levels end it unless they are in parentheses.

How deeply the frames may be nested where an operand begins is limited.  The limit depends on what else is going on, so
that it is a parameter throughout.

* `close_zero`: finishing everything leaves nothing, or an open parenthesis.
-/

namespace LoxSyntax

/-- The level of the operators that bind least, and so of a whole expression. -/
def loosestLevel : Nat := 1

/-- The level of prefix operators. -/
def prefixLevel : Nat := 5

/-- The level of literals and parentheses. -/
def primaryLevel : Nat := 6

/-- The level of a binary operator. -/
def Kind.binaryLevel? : Kind → Option Nat
  | bangEqual | equalEqual => some 1
  | greater | greaterEqual | less | lessEqual => some 2
  | minus | plus => some 3
  | slash | star => some 4
  | _ => none

/-- Whether an operator may stand in front of its only operand. -/
def Kind.isPrefixOperator : Kind → Bool
  | bang | minus => true
  | _ => false

/-- The value of a token that is a literal. -/
def Token.value? (t : Token) : Option Literal :=
  match t.kind with
  | .falseWord => some (.bool false)
  | .trueWord => some (.bool true)
  | .nullWord => some .null
  | .number | .string => some t.literal
  | _ => none

/-- Why tokens are no expression. -/
inductive Rejection where
  | expectExpression
  | expectClosing
  | expectEnd
  | tooDeep
  deriving DecidableEq, Repr

/-- The reason in words. -/
def Rejection.message : Rejection → String
  | expectExpression => "Expect expression."
  | expectClosing => "Expect ')' after expression."
  | expectEnd => "Expect end of expression."
  | tooDeep => "Expression too deeply nested."

/-- A part of an expression that waits for what follows. -/
inductive Frame where
  | unary (operator : Token)
  | binary (left : Expr Span) (operator : Token) (level : Nat)
  | paren (opening : Token)

/-- An expression that is being assembled: the frames, innermost first, and the operand that is complete. -/
structure Assembly where
  pending : List Frame := []
  operand? : Option (Expr Span) := none

namespace Assembly

/-- A prefix operator with its operand. -/
def makeUnary (op : Token) (e : Expr Span) : Expr Span := .unary (op.span.join e.info) op e

/-- A binary operator with its operands. -/
def makeBinary (l : Expr Span) (op : Token) (r : Expr Span) : Expr Span := .binary (l.info.join r.info) l op r

/-- An expression with its parentheses. -/
def makeGrouping (opening : Token) (e : Expr Span) (closing : Token) : Expr Span :=
  .grouping (opening.span.join closing.span) e

/-- Finish the pending operators of at least a level, up to the innermost parenthesis. -/
def close (level : Nat) : List Frame → Expr Span → List Frame × Expr Span
  | .unary op :: fs, e => if level ≤ prefixLevel then close level fs (makeUnary op e) else (.unary op :: fs, e)
  | .binary l op m :: fs, e => if level ≤ m then close level fs (makeBinary l op e) else (.binary l op m :: fs, e)
  | fs, e => (fs, e)

/-- The lowest level at which an operator goes on with the expression: any in parentheses, and outside of them the one
that was asked for. -/
def floor (base : Nat) : List Frame → Nat
  | [] => base
  | .paren _ :: _ => loosestLevel
  | _ :: fs => floor base fs

/-- How deeply the frames are nested; a parenthesis counts as much as the levels that are tried inside it. -/
def depth : List Frame → Nat
  | [] => 0
  | .unary _ :: fs => depth fs + 1
  | .binary _ _ _ :: fs => depth fs
  | .paren _ :: fs => depth fs + 11

/-- What a token does to an assembly. -/
inductive Step where
  | shift (s : Assembly)
  | accept (e : Expr Span)
  | reject (why : Rejection)

/-- A token where an operand is due. -/
def stepOperand (limit base : Nat) (fs : List Frame) (t : Token) : Step :=
  if t.kind.isPrefixOperator && (decide (base ≤ prefixLevel) || !fs.isEmpty) then
    -- prefix operators are looked for one level above all other operands
    if limit + 1 < depth fs then .reject .tooDeep else .shift ⟨.unary t :: fs, none⟩
  else if limit < depth fs then .reject .tooDeep
  else if t.kind = .leftParen then .shift ⟨.paren t :: fs, none⟩
  else match t.value? with
    | some v => .shift ⟨fs, some (.literal t.span v)⟩
    | none => .reject .expectExpression

/-- A token that is no binary operator, after a complete operand. -/
def stepClosing (fs : List Frame) (e : Expr Span) (t : Token) : Step :=
  match close 0 fs e with
  | (.paren opening :: fs', e') =>
    if t.kind = .rightParen then .shift ⟨fs', some (makeGrouping opening e' t)⟩ else .reject .expectClosing
  | (_, e') => .accept e'

/-- A token after a complete operand. -/
def stepOperator (base : Nat) (fs : List Frame) (e : Expr Span) (t : Token) : Step :=
  match t.kind.binaryLevel? with
  | some level =>
    let (fs', e') := close level fs e
    if floor base fs' ≤ level then .shift ⟨.binary e' t level :: fs', none⟩
    else .accept (close 0 fs' e').2
  | none => stepClosing fs e t

/-- The effect of a token. -/
def step (limit base : Nat) (s : Assembly) (t : Token) : Step :=
  match s.operand? with
  | none => stepOperand limit base s.pending t
  | some e => stepOperator base s.pending e t

/-- The expression that is complete whatever follows: no binary operator can go on with an expression that was asked
for above their levels. -/
def settled? (base : Nat) (s : Assembly) : Option (Expr Span) :=
  match s.operand? with
  | none => none
  | some e =>
    if base < prefixLevel then none
    else match close 0 s.pending e with
      | ([], e') => some e'
      | _ => none

/-- What comes of assembling an expression. -/
inductive Verdict where
  | accepted (e : Expr Span)
  /-- the token that has no place, and why -/
  | rejected (token : Token) (why : Rejection)
  /-- the tokens came to an end where one was due -/
  | exhausted

/-- Go on with an assembly: the verdict, and the tokens that were not taken. -/
def run (limit base : Nat) (s : Assembly) (ts : List Token) : Verdict × List Token :=
  match s.settled? base with
  | some e => (.accepted e, ts)
  | none =>
    match ts with
    | [] => (.exhausted, [])
    | t :: rest =>
      match s.step limit base t with
      | .shift s' => run limit base s' rest
      | .accept e => (.accepted e, t :: rest)
      | .reject why => (.rejected t why, t :: rest)

theorem close_zero (fs : List Frame) (e : Expr Span) :
    (close 0 fs e).1 = [] ∨ ∃ opening fs', (close 0 fs e).1 = .paren opening :: fs' := by
  induction fs generalizing e with
  | nil => exact Or.inl rfl
  | cons f fs ih =>
    cases f with
    | paren o => exact Or.inr ⟨o, fs, rfl⟩
    | unary op => simpa [close] using ih (makeUnary op e)
    | binary l op j => simpa [close] using ih (makeBinary l op e)

end Assembly

end LoxSyntax
