import Mathlib.Data.List.TakeWhile
import Mathlib.Order.Defs.PartialOrder
import LoxSyntax.Span

/-!
# Positions of offsets

An offset of a text lies on the line that is counted by the line feeds before it, in the column that is its distance
from the start of that line.  Line feeds end lines; a carriage return is a character like any other.

* `lineStart_append`: the last line of a text starts after its last line feed.
* `ofOffset_succ`: the position moves down behind a line feed and to the right behind any other character.
* `ofOffset_mono`, `ofOffset_injective`: a later offset has no earlier position, and not the same one.
-/

namespace LoxSyntax

/-- The offset where the last line of a text starts, which is after its last line feed. -/
def Text.lineStart (t : List Char) : Nat := (t.reverse.dropWhile (· != '\n')).length

/-- The position of an offset in a text. -/
def Position.ofOffset (t : List Char) (o : Nat) : Position :=
  ⟨((1 + (t.take o).count '\n' : Nat) : Int), (o : Int) - Text.lineStart (t.take o)⟩

/-- The span between two offsets of a text. -/
def Span.ofOffsets (t : List Char) (start stop : Nat) : Span :=
  ⟨Position.ofOffset t start, Position.ofOffset t stop⟩

namespace Text

theorem lineStart_append (a b : List Char) :
    lineStart (a ++ b) = if '\n' ∈ b then a.length + lineStart b else lineStart a := by
  unfold lineStart
  rw [List.reverse_append, List.dropWhile_append]
  by_cases h : '\n' ∈ b
  · have hne : (b.reverse.dropWhile (· != '\n')).isEmpty = false := by
      rw [← Bool.not_eq_true, List.isEmpty_iff, List.dropWhile_eq_nil_iff]
      intro hall
      have := hall '\n' (List.mem_reverse.2 h)
      simp at this
    rw [if_pos h, hne, if_neg Bool.false_ne_true, List.length_append, List.length_reverse, Nat.add_comm]
  · have hnil : (b.reverse.dropWhile (· != '\n')).isEmpty = true := by
      rw [List.isEmpty_iff, List.dropWhile_eq_nil_iff]
      intro c hc
      rw [bne_iff_ne]
      rintro rfl
      exact h (List.mem_reverse.1 hc)
    rw [if_neg h, hnil, if_pos rfl]

theorem lineStart_concat (t : List Char) (c : Char) :
    lineStart (t ++ [c]) = if c = '\n' then t.length + 1 else lineStart t := by
  rw [lineStart_append]
  by_cases h : c = '\n'
  · subst h
    rfl
  · simp [h, Ne.symm h]

private theorem lineStart_eq (t : List Char) :
    lineStart t = ((t.map (· == '\n')).reverse.dropWhile (! ·)).length := by
  rw [← List.map_reverse, List.dropWhile_map, List.length_map]
  rfl

end Text

namespace Position

/-- The position of the offset after a character. -/
theorem ofOffset_succ {t : List Char} {o : Nat} {c : Char} (h : t[o]? = some c) :
    ofOffset t (o + 1)
      = if c = '\n' then ⟨(ofOffset t o).line + 1, 0⟩ else ⟨(ofOffset t o).line, (ofOffset t o).column + 1⟩ := by
  obtain ⟨ho, hc⟩ := List.getElem?_eq_some_iff.1 h
  have e : t.take (o + 1) = t.take o ++ [c] := by rw [List.take_succ_eq_append_getElem ho, hc]
  have hlen : (t.take o).length = o := List.length_take_of_le (Nat.le_of_lt ho)
  unfold ofOffset
  rw [e, Text.lineStart_concat, List.count_append, hlen]
  by_cases hn : c = '\n'
  · subst hn
    rw [if_pos rfl, if_pos rfl, List.count_singleton_self]
    simp only [Position.mk.injEq]
    omega
  · have hcount : [c].count '\n' = 0 := List.count_eq_zero.2 (by simpa using Ne.symm hn)
    rw [if_neg hn, if_neg hn, hcount]
    simp only [Position.mk.injEq]
    omega

/-- Positions depend only on where the line feeds are. -/
theorem ofOffset_congr {t t' : List Char} (h : t.map (· == '\n') = t'.map (· == '\n')) (o : Nat) :
    ofOffset t o = ofOffset t' o := by
  have htake : (t.take o).map (· == '\n') = (t'.take o).map (· == '\n') := by
    rw [List.map_take, List.map_take, h]
  have hcount (u : List Char) : u.count '\n' = (u.map (· == '\n')).count true := by
    rw [List.count_eq_countP, List.count_eq_countP, List.countP_map]
    congr 1
    funext c
    simp
  rw [ofOffset, ofOffset, Text.lineStart_eq, Text.lineStart_eq, hcount, hcount, htake]

theorem one_le_line (t : List Char) (o : Nat) : 1 ≤ (ofOffset t o).line := by
  unfold ofOffset
  push_cast
  omega

/-! ### The order of positions -/

theorem le_iff {p q : Position} : p ≤ q ↔ p.line < q.line ∨ (p.line = q.line ∧ p.column ≤ q.column) := Iff.rfl

theorem eq_iff {p q : Position} : p = q ↔ p.line = q.line ∧ p.column = q.column := by
  cases p
  cases q
  simp

instance : Preorder Position where
  le_refl p := Or.inr ⟨rfl, Int.le_refl _⟩
  le_trans p q r hpq hqr := by
    rw [le_iff] at hpq hqr ⊢
    omega

private theorem ofOffset_le_succ (t : List Char) (o : Nat) : ofOffset t o ≤ ofOffset t (o + 1) := by
  rcases Nat.lt_or_ge o t.length with h | h
  · rw [ofOffset_succ (List.getElem?_eq_getElem h), le_iff]
    split
    · exact Or.inl (Int.lt_succ _)
    · exact Or.inr ⟨rfl, Int.le_of_lt (Int.lt_succ _)⟩
  · -- beyond the end the line stays and the column counts on
    have e : t.take (o + 1) = t.take o := by
      rw [List.take_of_length_le h, List.take_of_length_le (Nat.le_succ_of_le h)]
    have hcolumn : (ofOffset t (o + 1)).column = (ofOffset t o).column + 1 := by
      simp only [ofOffset, e]
      omega
    have hline : (ofOffset t (o + 1)).line = (ofOffset t o).line := by simp only [ofOffset, e]
    rw [le_iff]
    omega

theorem ofOffset_mono (t : List Char) {o o' : Nat} (h : o ≤ o') : ofOffset t o ≤ ofOffset t o' := by
  induction h with
  | refl => exact le_refl _
  | step _ ih => exact ih.trans (ofOffset_le_succ t _)

private theorem take_eq_append {t : List Char} {o o' : Nat} (h : o ≤ o') :
    t.take o' = t.take o ++ (t.take o').drop o := by
  conv => lhs; rw [← List.take_append_drop o (t.take o')]
  rw [List.take_take, Nat.min_eq_left h]

/-- Two offsets are as many lines apart as there are line feeds between them. -/
theorem line_ofOffset_add {t : List Char} {o o' : Nat} (h : o ≤ o') :
    (ofOffset t o').line = (ofOffset t o).line + ((t.take o').drop o).count '\n' := by
  have hcount : (t.take o').count '\n' = (t.take o).count '\n' + ((t.take o').drop o).count '\n' := by
    conv => lhs; rw [take_eq_append h]
    exact List.count_append
  simp only [ofOffset, hcount]
  omega

/-- Without a line feed between them, two offsets lie on one line. -/
theorem line_ofOffset_eq {t : List Char} {o o' : Nat} (h : o ≤ o') (hn : '\n' ∉ (t.take o').drop o) :
    (ofOffset t o).line = (ofOffset t o').line := by
  rw [line_ofOffset_add h, List.count_eq_zero.2 hn]
  exact (Int.add_zero _).symm

private theorem eq_of_ofOffset_eq {t : List Char} {o o' : Nat} (h : o ≤ o') (he : ofOffset t o = ofOffset t o') :
    o = o' := by
  obtain ⟨hline, hcolumn⟩ := eq_iff.1 he
  have hn : '\n' ∉ (t.take o').drop o := by
    have hadd := line_ofOffset_add (t := t) h
    exact List.count_eq_zero.1 (by omega)
  -- on one line, the columns are counted from the same offset
  have hstart : Text.lineStart (t.take o') = Text.lineStart (t.take o) := by
    rw [take_eq_append h, Text.lineStart_append, if_neg hn]
  simp only [ofOffset, hstart] at hcolumn
  omega

/-- No two offsets have the same position. -/
theorem ofOffset_injective (t : List Char) : Function.Injective (ofOffset t) := by
  intro o o' he
  rcases Nat.le_total o o' with h | h
  · exact eq_of_ofOffset_eq h he
  · exact (eq_of_ofOffset_eq h he.symm).symm

end Position

end LoxSyntax
