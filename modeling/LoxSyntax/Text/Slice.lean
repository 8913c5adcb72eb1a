/-!
# Places and slices with signed bounds

A place in a list may be any integer, and a negative one counts from the end.  A slice is given by two such places,
its bounds.  Both are clamped to the list, so that every slice is defined.

* `at?_natCast`: a place that is a natural number is an index.
* `slice_natCast`: bounds that are natural numbers cut with `take` and `drop`.
* `slice_append`: a slice, what is before it and what is after it make up the list when the bounds are in order.
-/

namespace LoxSyntax.Text

/-- The element at the place `i`. -/
def at? {α : Type} (l : List α) (i : Int) : Option α :=
  if 0 ≤ i then l[i.toNat]?
  else if 0 ≤ i + l.length then l[(i + l.length).toNat]?
  else none

/-- The place that the bound `i` stands for in a list of length `n`. -/
def bound (n : Nat) (i : Int) : Nat :=
  if i < 0 then (i + n).toNat else min i.toNat n

/-- The elements before the bound `hi`. -/
def sliceTo {α : Type} (l : List α) (hi : Int) : List α :=
  l.take (bound l.length hi)

/-- The elements from the bound `lo` on. -/
def sliceFrom {α : Type} (l : List α) (lo : Int) : List α :=
  l.drop (bound l.length lo)

/-- The elements from the bound `lo` up to the bound `hi`; empty when the bounds cross. -/
def slice {α : Type} (l : List α) (lo hi : Int) : List α :=
  (sliceTo l hi).drop (bound l.length lo)

theorem at?_natCast {α : Type} (l : List α) (i : Nat) : at? l (i : Int) = l[i]? := by
  simp [at?]

theorem bound_le (n : Nat) (i : Int) : bound n i ≤ n := by
  unfold bound
  split <;> omega

theorem bound_natCast (n i : Nat) : bound n (i : Int) = min i n := by
  unfold bound
  split <;> omega

theorem sliceTo_natCast {α : Type} (l : List α) (i : Nat) : sliceTo l (i : Int) = l.take i := by
  rw [sliceTo, bound_natCast, ← List.take_take, List.take_length]

theorem sliceFrom_natCast {α : Type} (l : List α) (i : Nat) : sliceFrom l (i : Int) = l.drop i := by
  rw [sliceFrom, bound_natCast]
  rcases Nat.le_total i l.length with h | h
  · rw [Nat.min_eq_left h]
  · rw [Nat.min_eq_right h, List.drop_length, List.drop_of_length_le h]

theorem slice_natCast {α : Type} (l : List α) (i j : Nat) :
    slice l (i : Int) (j : Int) = (l.take j).drop i := by
  rw [slice, sliceTo_natCast, bound_natCast]
  rcases Nat.le_total i l.length with h | h
  · rw [Nat.min_eq_left h]
  · have hj : (l.take j).length ≤ l.length := List.length_take_le' j l
    rw [Nat.min_eq_right h, List.drop_of_length_le hj, List.drop_of_length_le (Nat.le_trans hj h)]

theorem slice_append {α : Type} (l : List α) {lo hi : Int} (h : bound l.length lo ≤ bound l.length hi) :
    sliceTo l lo ++ slice l lo hi ++ sliceFrom l hi = l := by
  have e : sliceTo l lo = (l.take (bound l.length hi)).take (bound l.length lo) := by
    rw [sliceTo, List.take_take, Nat.min_eq_left h]
  rw [e, slice, sliceTo, List.take_append_drop, sliceFrom, List.take_append_drop]

end LoxSyntax.Text
