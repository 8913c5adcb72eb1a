import Mathlib.Data.Int.Order.Basic
import Mathlib.Order.Bounds.Basic
import LoxSyntax.Proofs.Text.Position

/-!
# Joins of spans

The join of two spans starts at the earlier of their starts and stops on the later of the lines where they stop.  The
column where it stops is chosen by the lines where the two start, and so it need not be the column of the later stop.
It is this column only that depends on the order and the bracketing in which the spans of a list are joined.

* `isLeast_start_join`, `isGreatest_line_join`, `isGreatest_stop_join_iff`: the ends of the join of two spans.
* `Joins`: a list of spans, joined in any bracketing; `isLeast_start_of_joins` and the lemmas after it, by induction.
* `join_of_spans`: the ends of joins of two spans and of lists of spans.
* `join_overhung`: joins that stop in the column of another line.
-/

namespace LoxSyntax

namespace Span

/-- A span that stands in a text: its start is not behind its stop. -/
structure WellFormed (s : Span) : Prop where
  one_le_line : 1 ≤ s.start.line
  line_le : s.start.line ≤ s.stop.line
  startColumn_nonneg : 0 ≤ s.start.column
  stopColumn_nonneg : 0 ≤ s.stop.column
  column_le (h : s.start.line = s.stop.line) : s.start.column ≤ s.stop.column

/-- The span `a` starts on the line of `b` and stops on an earlier line, further right. -/
def Overhangs (a b : Span) : Prop :=
  a.start.line = b.start.line ∧ a.stop.line < b.stop.line ∧ b.stop.column < a.stop.column

/-- The span `a` starts on an earlier line than `b` and does not stop before it, and stops in another column. -/
def Nests (a b : Span) : Prop :=
  a.start.line < b.start.line ∧ b.stop ≤ a.stop ∧ a.stop.column ≠ b.stop.column

/-- Spans whose join stops in the wrong column. -/
def Misjoined (a b : Span) : Prop :=
  (a.Overhangs b ∨ b.Overhangs a) ∨ (a.Nests b ∨ b.Nests a)

/-- The spans of a list, in their order, are joined in some bracketing, and only spans that are related by `R` are
joined to each other. -/
inductive Joins (R : Span → Span → Prop) : List Span → Span → Prop
  | single (s : Span) : Joins R [s] s
  | join {l m : List Span} {a b : Span} (hl : Joins R l a) (hm : Joins R m b) (h : R a b) :
      Joins R (l ++ m) (a.join b)

variable {a b s s' : Span} {l l' : List Span} {R : Span → Span → Prop}

/-! ### Two spans -/

theorem line_stop_join (a b : Span) : (a.join b).stop.line = max a.stop.line b.stop.line := rfl

theorem column_stop_join (a b : Span) : (a.join b).stop.column =
    if a.start.line < b.start.line then b.stop.column
    else if b.start.line < a.start.line then a.stop.column
    else max a.stop.column b.stop.column := by
  unfold join joinColumns
  dsimp only
  split
  · rfl
  · split <;> rfl

theorem wellFormed_join (ha : a.WellFormed) (hb : b.WellFormed) : (a.join b).WellFormed := by
  obtain ⟨ha₁, ha₂, ha₃, ha₄, ha₅⟩ := ha
  obtain ⟨hb₁, hb₂, hb₃, hb₄, hb₅⟩ := hb
  unfold join joinColumns
  rcases Int.lt_trichotomy a.start.line b.start.line with h | h | h
  · rw [if_pos h]
    refine ⟨?_, ?_, ha₃, hb₄, ?_⟩ <;> dsimp only <;> omega
  · rw [if_neg (by omega), if_neg (by omega)]
    refine ⟨?_, ?_, ?_, ?_, ?_⟩ <;> dsimp only <;> omega
  · rw [if_neg (by omega), if_pos h]
    refine ⟨?_, ?_, hb₃, ha₄, ?_⟩ <;> dsimp only <;> omega

/-- A position is the least of two when it is one of them and not behind either. -/
private theorem isLeast_pair_iff {p q r : Position} : IsLeast {p, q} r ↔ (r = p ∨ r = q) ∧ r ≤ p ∧ r ≤ q := by
  simp [IsLeast]

private theorem isGreatest_pair_iff {p q r : Position} : IsGreatest {p, q} r ↔ (r = p ∨ r = q) ∧ p ≤ r ∧ q ≤ r := by
  simp [IsGreatest]

theorem isLeast_start_join (a b : Span) : IsLeast {a.start, b.start} (a.join b).start := by
  rw [isLeast_pair_iff]
  simp only [Position.eq_iff, Position.le_iff, join, joinColumns]
  rcases Int.lt_trichotomy a.start.line b.start.line with h | h | h
  · rw [if_pos h]
    omega
  · rw [if_neg (by omega), if_neg (by omega)]
    omega
  · rw [if_neg (by omega), if_pos h]
    omega

theorem isGreatest_line_join (a b : Span) : IsGreatest {a.stop.line, b.stop.line} (a.join b).stop.line :=
  isGreatest_pair

theorem misjoined_comm : a.Misjoined b ↔ b.Misjoined a := or_congr or_comm or_comm

theorem misjoined_iff_nests (h : a.start.line < b.start.line) : a.Misjoined b ↔ a.Nests b := by
  simp only [Misjoined, Overhangs, Nests, Position.le_iff]
  omega

theorem misjoined_iff_overhangs (h : a.start.line = b.start.line) :
    a.Misjoined b ↔ a.Overhangs b ∨ b.Overhangs a := by
  simp only [Misjoined, Overhangs, Nests]
  omega

private theorem isGreatest_stop_join_of_lt (h : a.start.line < b.start.line) :
    IsGreatest {a.stop, b.stop} (a.join b).stop ↔ ¬ a.Misjoined b := by
  have hcolumn : (a.join b).stop.column = b.stop.column := by rw [column_stop_join, if_pos h]
  rw [misjoined_iff_nests h, isGreatest_pair_iff]
  simp only [Position.eq_iff, Position.le_iff, Nests, line_stop_join, hcolumn, and_true]
  omega

private theorem isGreatest_stop_join_of_eq (h : a.start.line = b.start.line) :
    IsGreatest {a.stop, b.stop} (a.join b).stop ↔ ¬ a.Misjoined b := by
  have hcolumn : (a.join b).stop.column = max a.stop.column b.stop.column := by
    rw [column_stop_join, if_neg h.not_lt, if_neg h.not_gt]
  rw [misjoined_iff_overhangs h, isGreatest_pair_iff]
  simp only [Position.eq_iff, Position.le_iff, Overhangs, line_stop_join, hcolumn]
  omega

/-- A join stops at the later of the two stops unless the spans are misjoined. -/
theorem isGreatest_stop_join_iff : IsGreatest {a.stop, b.stop} (a.join b).stop ↔ ¬ a.Misjoined b := by
  -- the lines where the spans start decide which column is taken
  rcases Int.lt_trichotomy a.start.line b.start.line with h | h | h
  · exact isGreatest_stop_join_of_lt h
  · exact isGreatest_stop_join_of_eq h
  · rw [join_comm, Set.pair_comm, misjoined_comm]
    exact isGreatest_stop_join_of_lt h

/-! ### Lists of spans -/

private theorem isGreatest_append {β : Type} [Preorder β] (f : Span → β) {l m : List Span} {x y z : β}
    (hl : IsGreatest {p | ∃ a ∈ l, f a = p} x) (hm : IsGreatest {p | ∃ a ∈ m, f a = p} y) (hz : IsGreatest {x, y} z) :
    IsGreatest {p | ∃ a ∈ l ++ m, f a = p} z := by
  obtain ⟨hx, hy⟩ : x ≤ z ∧ y ≤ z := ⟨hz.2 (Or.inl rfl), hz.2 (Or.inr rfl)⟩
  constructor
  · rcases hz.1 with rfl | rfl
    · obtain ⟨a, ha, rfl⟩ := hl.1
      exact ⟨a, List.mem_append_left m ha, rfl⟩
    · obtain ⟨a, ha, rfl⟩ := hm.1
      exact ⟨a, List.mem_append_right l ha, rfl⟩
  · rintro p ⟨a, ha, rfl⟩
    rcases List.mem_append.1 ha with ha | ha
    · exact (hl.2 ⟨a, ha, rfl⟩).trans hx
    · exact (hm.2 ⟨a, ha, rfl⟩).trans hy

private theorem isLeast_append {β : Type} [Preorder β] (f : Span → β) {l m : List Span} {x y z : β}
    (hl : IsLeast {p | ∃ a ∈ l, f a = p} x) (hm : IsLeast {p | ∃ a ∈ m, f a = p} y) (hz : IsLeast {x, y} z) :
    IsLeast {p | ∃ a ∈ l ++ m, f a = p} z :=
  @isGreatest_append βᵒᵈ _ f l m x y z hl hm hz

private theorem isGreatest_single {β : Type} [Preorder β] (f : Span → β) (s : Span) :
    IsGreatest {p | ∃ a ∈ [s], f a = p} (f s) := by
  refine ⟨⟨s, List.mem_singleton_self s, rfl⟩, ?_⟩
  rintro p ⟨a, ha, rfl⟩
  rw [List.mem_singleton.1 ha]

theorem Joins.imp {R' : Span → Span → Prop} (hR : ∀ a b, R a b → R' a b) (h : Joins R l s) : Joins R' l s := by
  induction h with
  | single s => exact .single s
  | join _ _ hr ihl ihm => exact .join ihl ihm (hR _ _ hr)

/-- In every bracketing, spans are joined to one that starts where the first of them does. -/
theorem isLeast_start_of_joins (h : Joins R l s) : IsLeast {p | ∃ a ∈ l, a.start = p} s.start := by
  induction h with
  | single s => exact @isGreatest_single Positionᵒᵈ _ Span.start s
  | join _ _ _ ihl ihm => exact isLeast_append Span.start ihl ihm (isLeast_start_join _ _)

/-- In every bracketing, spans are joined to one that stops on the last line of them. -/
theorem isGreatest_line_of_joins (h : Joins R l s) : IsGreatest {n | ∃ a ∈ l, a.stop.line = n} s.stop.line := by
  induction h with
  | single s => exact isGreatest_single (fun a => a.stop.line) s
  | join _ _ _ ihl ihm => exact isGreatest_append (fun a => a.stop.line) ihl ihm (isGreatest_line_join _ _)

/-- As long as no two spans are misjoined, spans are joined to one that stops where the last of them does. -/
theorem isGreatest_stop_of_joins (h : Joins (fun a b => ¬ a.Misjoined b) l s) :
    IsGreatest {p | ∃ a ∈ l, a.stop = p} s.stop := by
  induction h with
  | single s => exact isGreatest_single Span.stop s
  | join _ _ hr ihl ihm => exact isGreatest_append Span.stop ihl ihm (isGreatest_stop_join_iff.2 hr)

theorem wellFormed_of_joins (h : Joins R l s) (hl : ∀ a ∈ l, a.WellFormed) : s.WellFormed := by
  induction h with
  | single s => exact hl s (List.mem_singleton_self s)
  | join _ _ _ ihl ihm =>
    rw [List.forall_mem_append] at hl
    exact wellFormed_join (ihl hl.1) (ihm hl.2)

/-- Joining spans one after the other to what has been joined is one of the bracketings. -/
theorem joins_foldl (h : Joins (fun _ _ => True) l s) (m : List Span) :
    Joins (fun _ _ => True) (l ++ m) (m.foldl join s) := by
  induction m generalizing l s with
  | nil => rwa [List.append_nil]
  | cons b m ih =>
    have key := ih (.join h (.single b) trivial)
    rwa [List.append_assoc] at key

/-- Spans on one line are never misjoined. -/
theorem joins_of_line {n : Int} (h : Joins R l s) (hl : ∀ a ∈ l, a.start.line = n ∧ a.stop.line = n) :
    Joins (fun a b => ¬ a.Misjoined b) l s ∧ s.start.line = n ∧ s.stop.line = n := by
  induction h with
  | single s => exact ⟨.single s, hl s (List.mem_singleton_self s)⟩
  | @join l m a b _ _ _ ihl ihm =>
    rw [List.forall_mem_append] at hl
    obtain ⟨hja, ha₁, ha₂⟩ := ihl hl.1
    obtain ⟨hjb, hb₁, hb₂⟩ := ihm hl.2
    refine ⟨.join hja hjb ?_, ?_, ?_⟩
    · simp only [Misjoined, Overhangs, Nests]
      omega
    · show min a.start.line b.start.line = n
      omega
    · rw [line_stop_join]
      omega

private theorem eq_of_le_of_le {p q : Position} (h : p ≤ q) (h' : q ≤ p) : p = q := by
  rw [Position.le_iff] at h h'
  rw [Position.eq_iff]
  omega

/-- Whatever the order and the bracketing, spans are joined to one that starts at the same place and stops on the same
line. -/
theorem start_eq_of_joins {R' : Span → Span → Prop} (hp : l.Perm l') (h : Joins R l s) (h' : Joins R' l' s') :
    s.start = s'.start ∧ s.stop.line = s'.stop.line := by
  have hs := isLeast_start_of_joins h
  have hn := isGreatest_line_of_joins h
  simp only [hp.mem_iff] at hs hn
  have hs' := isLeast_start_of_joins h'
  exact ⟨eq_of_le_of_le (hs.2 hs'.1) (hs'.2 hs.1), hn.unique (isGreatest_line_of_joins h')⟩

/-- As long as no two spans are misjoined, order and bracketing have no effect. -/
theorem eq_of_joins (hp : l.Perm l') (h : Joins (fun a b => ¬ a.Misjoined b) l s)
    (h' : Joins (fun a b => ¬ a.Misjoined b) l' s') : s = s' := by
  have hq := isGreatest_stop_of_joins h
  simp only [hp.mem_iff] at hq
  have hq' := isGreatest_stop_of_joins h'
  have hstart := (start_eq_of_joins hp h h').1
  have hstop := eq_of_le_of_le (hq'.2 hq.1) (hq.2 hq'.1)
  cases s
  cases s'
  rw [Span.mk.injEq]
  exact ⟨hstart, hstop⟩

/-- The join of two spans starts at the earlier start and stops on the later line, and at the later stop exactly when
the spans are not misjoined.  So does a list of spans that are joined in any order and bracketing, of which spans on one
line are never misjoined. -/
theorem join_of_spans (a b : Span) (R : Span → Span → Prop) (l : List Span) (s : Span) :
    (a.join a = a ∧ a.join b = b.join a ∧ IsLeast {a.start, b.start} (a.join b).start ∧
      IsGreatest {a.stop.line, b.stop.line} (a.join b).stop.line ∧
      (IsGreatest {a.stop, b.stop} (a.join b).stop ↔ ¬ a.Misjoined b) ∧
      (a.WellFormed → b.WellFormed → (a.join b).WellFormed)) ∧
    Joins (fun _ _ => True) (a :: l) (l.foldl join a) ∧
    (Joins R l s → ((∀ c ∈ l, c.WellFormed) → s.WellFormed) ∧
      IsLeast {p | ∃ c ∈ l, c.start = p} s.start ∧ IsGreatest {n | ∃ c ∈ l, c.stop.line = n} s.stop.line ∧
      ((∀ c d, R c d → ¬ c.Misjoined d) → IsGreatest {p | ∃ c ∈ l, c.stop = p} s.stop) ∧
      ∀ (l' : List Span) (s' : Span), l.Perm l' → Joins R l' s' → s.start = s'.start ∧ s.stop.line = s'.stop.line ∧
        ((∀ c d, R c d → ¬ c.Misjoined d) → s = s')) ∧
    ∀ n : Int, (∀ c ∈ l, c.start.line = n ∧ c.stop.line = n) → Joins R l s →
      Joins (fun c d => ¬ c.Misjoined d) l s := by
  refine ⟨?_, joins_foldl (.single a) l, fun h => ?_, fun n hl h => (joins_of_line h hl).1⟩
  · exact ⟨join_self a, join_comm a b, isLeast_start_join a b, isGreatest_line_join a b, isGreatest_stop_join_iff,
      wellFormed_join⟩
  · refine ⟨wellFormed_of_joins h, isLeast_start_of_joins h, isGreatest_line_of_joins h,
      fun hR => isGreatest_stop_of_joins (h.imp hR), ?_⟩
    intro l' s' hp h'
    obtain ⟨hstart, hline⟩ := start_eq_of_joins hp h h'
    exact ⟨hstart, hline, fun hR => eq_of_joins hp (h.imp hR) (h'.imp hR)⟩

/-- A span on one line that overhangs the next, which goes on to another line; and spans that are joined to different
ones in two bracketings. -/
theorem join_overhung :
    let a : Span := ⟨⟨1, 0⟩, ⟨1, 5⟩⟩
    let b : Span := ⟨⟨1, 9⟩, ⟨2, 1⟩⟩
    let c : Span := ⟨⟨2, 3⟩, ⟨2, 4⟩⟩
    let d : Span := ⟨⟨2, 6⟩, ⟨3, 0⟩⟩
    (a.WellFormed ∧ b.WellFormed ∧ (a.join b).stop = ⟨2, 5⟩ ∧ ¬ IsGreatest {a.stop, b.stop} (a.join b).stop) ∧
      c.WellFormed ∧ d.WellFormed ∧ ((a.join c).join d).stop = ⟨3, 0⟩ ∧ (a.join (c.join d)).stop = ⟨3, 4⟩ := by
  intro a b c d
  have ha : a.WellFormed := ⟨by decide, by decide, by decide, by decide, by decide⟩
  have hb : b.WellFormed := ⟨by decide, by decide, by decide, by decide, by decide⟩
  have hc : c.WellFormed := ⟨by decide, by decide, by decide, by decide, by decide⟩
  have hd : d.WellFormed := ⟨by decide, by decide, by decide, by decide, by decide⟩
  have hmisjoined : a.Misjoined b := Or.inl (Or.inl ⟨rfl, by decide, by decide⟩)
  exact ⟨⟨ha, hb, by decide, fun h => isGreatest_stop_join_iff.1 h hmisjoined⟩, hc, hd, by decide, by decide⟩

end Span

end LoxSyntax
