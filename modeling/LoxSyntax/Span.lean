import LoxSyntax.Decimal.Integer

/-!
# Positions and spans

A position is a line and a column; positions are ordered by line, then by column.  A span runs from a start to a stop
position, and the join of two spans covers both.  Lines count from one, columns from zero; a span that belongs to no
text has lines below one.

* `join_self`: a span joined to itself is itself.
* `join_comm`: the order of the two spans has no effect.
-/

namespace LoxSyntax

/-- A place in a text. -/
structure Position where
  line : Int
  column : Int
  deriving DecidableEq, Repr

/-- The order of positions: by line, then by column. -/
def Position.le (p q : Position) : Prop :=
  p.line < q.line ∨ (p.line = q.line ∧ p.column ≤ q.column)

instance : LE Position := ⟨Position.le⟩

instance (p q : Position) : Decidable (p ≤ q) :=
  inferInstanceAs (Decidable (p.line < q.line ∨ (p.line = q.line ∧ p.column ≤ q.column)))

/-- A stretch of text; its stop position is not part of it. -/
structure Span where
  start : Position
  stop : Position
  deriving DecidableEq, Repr

namespace Span

/-- The span of what stands in no text. -/
def nowhere : Span := ⟨⟨-1, 0⟩, ⟨-1, -1⟩⟩

/-- An empty span at the start of a line. -/
def atLine (line : Int) : Span := ⟨⟨line, 0⟩, ⟨line, 0⟩⟩

/-- The columns of the join: those of the span that starts on the earlier line come first, and spans that start on one
line share their outermost columns. -/
def joinColumns (a b : Span) : Int × Int :=
  if a.start.line < b.start.line then (a.start.column, b.stop.column)
  else if b.start.line < a.start.line then (b.start.column, a.stop.column)
  else (min a.start.column b.start.column, max a.stop.column b.stop.column)

/-- The span from the earlier start to the later stop. -/
def join (a b : Span) : Span :=
  let columns := joinColumns a b
  ⟨⟨min a.start.line b.start.line, columns.1⟩, ⟨max a.stop.line b.stop.line, columns.2⟩⟩

/-- The joins of the first spans of a list, from the first one on. -/
def joins : List Span → List Span
  | [] => []
  | a :: rest => go a rest
where
  /-- The joins that begin with `a`. -/
  go (a : Span) : List Span → List Span
    | [] => [a]
    | b :: rest => a :: go (a.join b) rest

/-- Whether a span ends on another line than it starts on. -/
def multiline (s : Span) : Bool := s.start.line != s.stop.line

/-- The lines of a span, in words. -/
def describeLines (s : Span) : String :=
  if s.multiline then "lines [" ++ Decimal.showInt s.start.line ++ "-" ++ Decimal.showInt s.stop.line ++ "]"
  else "line [" ++ Decimal.showInt s.start.line ++ "]"

/-- The two lines and the two columns of a span. -/
def inspect (s : Span) : String :=
  let pair (a b : Int) : String := "(" ++ Decimal.showInt a ++ ", " ++ Decimal.showInt b ++ ")"
  "Span(ln=" ++ pair s.start.line s.stop.line ++ ", col=" ++ pair s.start.column s.stop.column ++ ")"

theorem join_self (a : Span) : a.join a = a := by
  simp [join, joinColumns]

theorem join_comm (a b : Span) : a.join b = b.join a := by
  have key : joinColumns a b = joinColumns b a := by
    unfold joinColumns
    repeat' split
    all_goals first
      | omega
      | rfl
      | rw [Int.min_comm, Int.max_comm]
  simp only [join, key, Int.min_comm, Int.max_comm]

end Span

end LoxSyntax
