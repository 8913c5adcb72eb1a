/-!
# Cursors

A cursor is a place in a list: the elements before it, nearest first, the elements after it, and how many are before
it.  Moving never changes the list.

* `toList_skip`: a cursor that moves stays in its list.
* `offset_skip`: it moves as far as it is told, but not beyond the end.
* `behind_eq`: what lies between two offsets of a list can be read off the cursor at the second.
-/

namespace LoxSyntax

/-- A place in a list. -/
structure Cursor (α : Type) where
  /-- the elements before the place, nearest first -/
  before : List α
  /-- the elements from the place on -/
  after : List α
  /-- how many elements are before the place -/
  offset : Nat := before.length
  offset_eq : offset = before.length := by rfl

namespace Cursor

variable {α : Type}

/-- The place before the first element of a list. -/
def atStart (l : List α) : Cursor α where
  before := []
  after := l

/-- The list that the cursor is in. -/
def toList (c : Cursor α) : List α := c.before.reverse ++ c.after

/-- Whether nothing follows. -/
def atEnd (c : Cursor α) : Bool := c.after.isEmpty

/-- The length of the list that the cursor is in. -/
def size (c : Cursor α) : Nat := c.offset + c.after.length

/-- The cursor one element further; at the end it stays. -/
def next (c : Cursor α) : Cursor α :=
  match c.after with
  | [] => c
  | a :: rest => ⟨a :: c.before, rest, c.offset + 1, by simp [c.offset_eq]⟩

/-- The cursor `n` elements further, or at the end. -/
def skip (c : Cursor α) : Nat → Cursor α
  | 0 => c
  | n + 1 => c.next.skip n

/-- The elements from offset `start` to the cursor. -/
def behind (c : Cursor α) (start : Nat) : List α :=
  (c.before.take (c.offset - start)).reverse

@[simp] theorem toList_atStart (l : List α) : (atStart l).toList = l := rfl

@[simp] theorem toList_next (c : Cursor α) : c.next.toList = c.toList := by
  unfold next toList
  split
  · rfl
  · rename_i a rest h
    simp [h]

@[simp] theorem toList_skip (c : Cursor α) (n : Nat) : (c.skip n).toList = c.toList := by
  induction n generalizing c with
  | zero => rfl
  | succ n ih => rw [skip, ih, toList_next]

theorem after_next (c : Cursor α) : c.next.after = c.after.drop 1 := by
  unfold next
  split
  · rename_i h
    simp [h]
  · rename_i h
    simp [h]

@[simp] theorem after_skip (c : Cursor α) (n : Nat) : (c.skip n).after = c.after.drop n := by
  induction n generalizing c with
  | zero => rfl
  | succ n ih => rw [skip, ih, after_next, List.drop_drop, Nat.add_comm]

theorem offset_next (c : Cursor α) : c.next.offset = c.offset + min 1 c.after.length := by
  unfold next
  split
  · rename_i h
    simp [h]
  · rename_i h
    simp only [h, List.length_cons]
    omega

theorem offset_skip (c : Cursor α) (n : Nat) : (c.skip n).offset = c.offset + min n c.after.length := by
  induction n generalizing c with
  | zero => simp [skip]
  | succ n ih =>
    rw [skip, ih, offset_next, after_next, List.length_drop]
    omega

theorem length_toList (c : Cursor α) : c.toList.length = c.size := by
  simp [toList, size, c.offset_eq]

theorem take_offset (c : Cursor α) : c.toList.take c.offset = c.before.reverse := by
  rw [toList, c.offset_eq, ← List.length_reverse, List.take_left']
  rfl

theorem drop_offset (c : Cursor α) : c.toList.drop c.offset = c.after := by
  rw [toList, c.offset_eq, ← List.length_reverse, List.drop_left']
  rfl

theorem behind_eq (c : Cursor α) (start : Nat) : c.behind start = (c.toList.take c.offset).drop start := by
  rw [take_offset, behind, List.drop_reverse, c.offset_eq]

end Cursor

end LoxSyntax
