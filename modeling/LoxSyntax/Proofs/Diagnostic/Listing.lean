import Mathlib.Data.List.Forall2
import LoxSyntax.Proofs.Text.Lines
import LoxSyntax.Proofs.Token.Placement

/-!
# What listings show

A listing of a span in a program shows the lines from some before the span to some after it, as far as there are any.
The rows are the lines of the program with their numbers, those of the span are marked, and what is coloured in them
makes up the text between the ends of the span.

* `getElem?_number`, `mem_map_number`: the rows are numbered one after the other.
* `unlines_colored`, `exists_colored`: what is coloured in the lines of a span is the text between its ends.
* `lists_rows`, `shows_showRow`: the rows of a listing, and how a row is shown.
* `listing_faithful`: both for every span in a program, and so for the mistakes in it.
-/

namespace LoxSyntax

/-- A position on one of the lines of a text. -/
structure Position.Within (t : List Char) (p : Position) : Prop where
  one_le : 1 ≤ p.line
  le_length : p.line ≤ (Text.lines t).length
  column_nonneg : 0 ≤ p.column
  column_le : ∀ line, Diagnostic.lineAt? t p.line = some line → p.column ≤ line.length

/-- A span between two positions in a text. -/
structure Span.Within (t : List Char) (s : Span) : Prop where
  start : s.start.Within t
  stop : s.stop.Within t
  le : s.start ≤ s.stop

theorem Diagnostic.lineAt?_succ (t : List Char) (i : Nat) : lineAt? t ((i : Int) + 1) = (Text.lines t)[i]? := by
  have hpos : (0 : Int) < (i : Int) + 1 := by omega
  have hindex : ((i : Int) + 1).toNat - 1 = i := by omega
  rw [lineAt?_of_pos t hpos, hindex]

theorem Position.within_iff {t : List Char} {p : Position} :
    p.Within t ↔ ∃ (i c : Nat) (line : List Char), (Text.lines t)[i]? = some line ∧ c ≤ line.length ∧
      p = ⟨(i : Int) + 1, c⟩ := by
  constructor
  · intro h
    obtain ⟨line, column⟩ := p
    have hone : 1 ≤ line := h.one_le
    have hlength : line ≤ (Text.lines t).length := h.le_length
    obtain ⟨i, rfl⟩ : ∃ i : Nat, line = (i : Int) + 1 := ⟨(line - 1).toNat, by omega⟩
    obtain ⟨c, rfl⟩ := Int.eq_ofNat_of_zero_le h.column_nonneg
    have hi : i < (Text.lines t).length := by omega
    have hline := List.getElem?_eq_getElem hi
    have hc := h.column_le _ ((Diagnostic.lineAt?_succ t i).trans hline)
    exact ⟨i, c, _, hline, Int.ofNat_le.1 hc, rfl⟩
  · rintro ⟨i, c, line, hline, hc, rfl⟩
    have hi := (List.getElem?_eq_some_iff.1 hline).1
    refine ⟨?_, ?_, Int.natCast_nonneg c, fun line' hline' => ?_⟩
    · show (1 : Int) ≤ (i : Int) + 1
      omega
    · show (i : Int) + 1 ≤ _
      omega
    · rw [Diagnostic.lineAt?_succ, hline] at hline'
      cases hline'
      exact Int.ofNat_le.2 hc

theorem Span.within_ofOffsets {t : List Char} {a b : Nat} (h : a ≤ b) (hb : b ≤ t.length) :
    (Span.ofOffsets t a b).Within t := by
  have hwithin {o : Nat} (ho : o ≤ t.length) : (Position.ofOffset t o).Within t := by
    obtain ⟨i, c, line, hline, hc, hp⟩ := Position.exists_line ho
    exact Position.within_iff.2 ⟨i, c, line, hline, hc, hp⟩
  exact ⟨hwithin (h.trans hb), hwithin hb, Position.ofOffset_mono t h⟩

namespace Listing

/-- The coloured text of a line. -/
def Content.inside? : Content → Option (List Char)
  | .plain _ => none
  | .marked _ inside _ => some inside

/-- The coloured texts of rows. -/
def colored (rows : List Row) : List (List Char) := rows.filterMap (·.content.inside?)

variable {span : Span} {i : Int} {ls : List (List Char)} {line : List Char}

/-! ### Numbered lines -/

theorem getElem?_number (span : Span) (i : Int) (ls : List (List Char)) (k : Nat) :
    (number span i ls)[k]? = ls[k]?.map fun line => ⟨i + k, contentOf span (i + k) line⟩ := by
  induction ls generalizing i k with
  | nil => rfl
  | cons line ls ih =>
    cases k with
    | zero => simp [number]
    | succ k =>
      have hi : i + 1 + (k : Int) = i + ((k + 1 : Nat) : Int) := by omega
      rw [number, List.getElem?_cons_succ, List.getElem?_cons_succ, ih, hi]

theorem number_append (span : Span) (i : Int) (ls ms : List (List Char)) :
    number span i (ls ++ ms) = number span i ls ++ number span (i + ls.length) ms := by
  induction ls generalizing i with
  | nil => simp [number]
  | cons line ls ih =>
    have hi : i + 1 + (ls.length : Int) = i + ((line :: ls).length : Int) := by
      rw [List.length_cons]
      omega
    rw [List.cons_append, number, number, ih, hi, List.cons_append]

theorem map_number (span : Span) (i : Int) (ls : List (List Char)) :
    (number span i ls).map Row.number = (List.range ls.length).map fun k : Nat => i + k := by
  apply List.ext_getElem?
  intro k
  rw [List.getElem?_map, getElem?_number, List.getElem?_map]
  rcases Nat.lt_or_ge k ls.length with h | h
  · rw [List.getElem?_eq_getElem h, List.getElem?_range h]
    rfl
  · have hrange : (List.range ls.length)[k]? = none := by rwa [List.getElem?_eq_none_iff, List.length_range]
    rw [List.getElem?_eq_none_iff.2 h, hrange]
    rfl

theorem mem_map_number {j : Int} : j ∈ (number span i ls).map Row.number ↔ i ≤ j ∧ j < i + ls.length := by
  rw [map_number, List.mem_map]
  constructor
  · rintro ⟨k, hk, rfl⟩
    have := List.mem_range.1 hk
    omega
  · intro hj
    exact ⟨(j - i).toNat, List.mem_range.2 (by omega), by omega⟩

theorem pairwise_map_number (span : Span) (i : Int) (ls : List (List Char)) :
    ((number span i ls).map Row.number).Pairwise (· < ·) := by
  rw [map_number]
  refine List.pairwise_map.2 (List.pairwise_lt_range.imp ?_)
  intro k k' hk
  omega

theorem exists_of_mem_number {r : Row} (h : r ∈ number span i ls) :
    ∃ k line, ls[k]? = some line ∧ r = ⟨i + (k : Nat), contentOf span (i + (k : Nat)) line⟩ := by
  obtain ⟨k, hk⟩ := List.mem_iff_getElem?.1 h
  rw [getElem?_number] at hk
  obtain ⟨line, hline, hr⟩ := Option.map_eq_some_iff.1 hk
  exact ⟨k, line, hline, hr.symm⟩

/-! ### The content of a line -/

/-- The column where the colour begins on a line of a span. -/
def startOn (span : Span) (i : Int) : Int := if i = span.start.line then span.start.column else 0

/-- The column where the colour ends on a line of a span. -/
def stopOn (span : Span) (i : Int) (line : List Char) : Int :=
  if i = span.stop.line then span.stop.column else line.length

theorem contentOf_eq (h : span.start.line ≤ i ∧ i ≤ span.stop.line) (line : List Char) :
    contentOf span i line = .marked (Text.sliceTo line (startOn span i))
      (Text.slice line (startOn span i) (stopOn span i line)) (Text.sliceFrom line (stopOn span i line)) := by
  rw [contentOf, if_pos h]
  rfl

theorem isSome_inside?_iff : (contentOf span i line).inside?.isSome = true ↔
    span.start.line ≤ i ∧ i ≤ span.stop.line := by
  by_cases h : span.start.line ≤ i ∧ i ≤ span.stop.line
  · rw [contentOf_eq h]
    exact iff_of_true rfl h
  · rw [contentOf, if_neg h]
    exact iff_of_false Bool.false_ne_true h

/-- On its only line, a span does not stop before it starts. -/
def ColumnsInOrder (span : Span) (line : List Char) : Prop :=
  span.start.line = span.stop.line →
    Text.bound line.length span.start.column ≤ Text.bound line.length span.stop.column

theorem bound_startOn_le (h : ColumnsInOrder span line) :
    Text.bound line.length (startOn span i) ≤ Text.bound line.length (stopOn span i line) := by
  unfold startOn stopOn
  by_cases hstop : i = span.stop.line
  · rw [if_pos hstop]
    by_cases hstart : i = span.start.line
    · rw [if_pos hstart]
      exact h (hstart.symm.trans hstop)
    · rw [if_neg hstart]
      have hzero : Text.bound line.length 0 = 0 := (Text.bound_natCast line.length 0).trans (Nat.zero_min _)
      rw [hzero]
      exact Nat.zero_le _
  · rw [if_neg hstop, Text.bound_natCast, Nat.min_self]
    exact Text.bound_le _ _

theorem text_contentOf (h : ColumnsInOrder span line) : (contentOf span i line).text = line := by
  by_cases hi : span.start.line ≤ i ∧ i ≤ span.stop.line
  · rw [contentOf_eq hi]
    exact marked_text (bound_startOn_le h)
  · rw [contentOf, if_neg hi]
    rfl

/-! ### The coloured text -/

theorem colored_append (rs rs' : List Row) : colored (rs ++ rs') = colored rs ++ colored rs' := List.filterMap_append

theorem colored_outside (h : i + ls.length ≤ span.start.line ∨ span.stop.line < i) :
    colored (number span i ls) = [] := by
  refine List.filterMap_eq_nil_iff.2 fun r hr => ?_
  obtain ⟨k, line, hline, rfl⟩ := exists_of_mem_number hr
  have hk := (List.getElem?_eq_some_iff.1 hline).1
  rw [← Option.not_isSome_iff_eq_none, isSome_inside?_iff]
  omega

theorem colored_cons (h : span.start.line ≤ i ∧ i ≤ span.stop.line) (line : List Char) (ls : List (List Char)) :
    colored (number span i (line :: ls))
      = Text.slice line (startOn span i) (stopOn span i line) :: colored (number span (i + 1) ls) := by
  rw [number, colored, List.filterMap_cons, contentOf_eq h]
  rfl

/-- The lines of a span are what is before the colour, what is coloured, and what is behind it. -/
theorem unlines_colored (line : List Char) {last : List Char} (hstart : span.start.line ≤ i)
    (hstop : i + ls.length = span.stop.line) (hlast : (line :: ls).getLast? = some last)
    (h : ColumnsInOrder span last) :
    Text.unlines (line :: ls) = Text.sliceTo line (startOn span i)
      ++ Text.unlines (colored (number span i (line :: ls))) ++ Text.sliceFrom last span.stop.column := by
  induction ls generalizing i line with
  | nil =>
    have hi : i = span.stop.line := by simpa using hstop
    have hcolumn : stopOn span i line = span.stop.column := if_pos hi
    obtain rfl : line = last := by simpa using hlast
    rw [colored_cons ⟨hstart, Int.le_of_eq hi⟩, hcolumn]
    have hbound := bound_startOn_le (i := i) h
    rw [hcolumn] at hbound
    exact (Text.slice_append line hbound).symm
  | cons line' ls ih =>
    have hi : i < span.stop.line := by
      rw [List.length_cons] at hstop
      omega
    have hnext : i + 1 + (ls.length : Int) = span.stop.line := by
      rw [List.length_cons] at hstop
      omega
    have htail := ih line' (Int.le_trans hstart (Int.le_of_lt (Int.lt_succ i))) hnext
      (by rwa [List.getLast?_cons_cons] at hlast)
    -- the colour goes to the end of this line and on from the start of the next
    have hcolumn : stopOn span i line = line.length := if_neg (Int.ne_of_lt hi)
    have hzero : startOn span (i + 1) = 0 := if_neg (by omega)
    have hwhole : Text.sliceTo line (startOn span i) ++ Text.slice line (startOn span i) line.length = line := by
      rw [Text.slice, Text.sliceTo_natCast, List.take_length]
      exact List.take_append_drop _ _
    have hne : colored (number span (i + 1) (line' :: ls)) ≠ [] := by
      rw [colored_cons ⟨by omega, by omega⟩]
      exact List.cons_ne_nil _ _
    have hnone : Text.sliceTo line' 0 = [] := Text.sliceTo_natCast line' 0
    rw [colored_cons ⟨hstart, Int.le_of_lt hi⟩, hcolumn, Text.unlines_cons _ hne,
      Text.unlines_cons _ (List.cons_ne_nil _ _), htail, hzero, hnone, List.nil_append, ← List.append_assoc, hwhole,
      List.append_assoc, List.cons_append]

/-! ### Rows of a listing -/

/-- The rows of a listing are the lines around the span, the lines of the span are marked, and what is coloured in them
is the text between the ends of the span. -/
structure Lists (l : Listing) (t : List Char) (span : Span) (rows : List Row) : Prop where
  number_mem : ∀ i, i ∈ rows.map Row.number ↔ max 1 (span.start.line - l.linesBefore) ≤ i ∧
    i ≤ min ((Text.lines t).length : Int) (span.stop.line + l.linesAfter)
  ordered : (rows.map Row.number).Pairwise (· < ·)
  text : ∀ r ∈ rows, Diagnostic.lineAt? t r.number = some r.content.text
  marked : ∀ r ∈ rows, r.content.inside?.isSome = true ↔ span.start.line ≤ r.number ∧ r.number ≤ span.stop.line
  inside : ∃ a b, a ≤ b ∧ b ≤ t.length ∧ span = Span.ofOffsets t a b ∧
    Text.unlines (colored rows) = (t.take b).drop a

theorem columnsInOrder_of_within {t : List Char} (h : span.Within t) (line : List Char) : ColumnsInOrder span line := by
  intro hline
  obtain ⟨c, hc⟩ := Int.eq_ofNat_of_zero_le h.start.column_nonneg
  obtain ⟨c', hc'⟩ := Int.eq_ofNat_of_zero_le h.stop.column_nonneg
  have hle : c ≤ c' := by
    have := Position.le_iff.1 h.le
    omega
  rw [hc, hc', Text.bound_natCast, Text.bound_natCast]
  omega

/-- A window of a list that has a place in it is what is before the place and what is behind it. -/
theorem drop_take_append {α : Type} (l : List α) {a i b : Nat} (hi : i ≤ l.length) (ha : a ≤ i) (hb : i ≤ b) :
    (l.take b).drop a = (l.take i).drop a ++ (l.take b).drop i := by
  have htake : l.take b = l.take i ++ (l.take b).drop i := by
    have := List.take_append_drop i (l.take b)
    rwa [List.take_take, Nat.min_eq_left hb, eq_comm] at this
  have hlen : a ≤ (l.take i).length := by rwa [List.length_take_of_le hi]
  conv => lhs; rw [htake]
  rw [List.drop_append_of_le_length hlen]

variable {l : Listing} {t : List Char}

theorem exists_window (h : span.Within t) (hafter : 0 ≤ l.linesAfter) :
    ∃ a b : Nat, (a : Int) + 1 = max 1 (span.start.line - l.linesBefore) ∧ (b : Int) = span.stop.line + l.linesAfter ∧
      l.rows t span = number span ((a : Int) + 1) (((Text.lines t).take b).drop a) := by
  have hstart := h.start.one_le
  have hstop := h.stop.one_le
  obtain ⟨a, ha⟩ := Int.eq_ofNat_of_zero_le
    (show 0 ≤ max 1 (span.start.line - l.linesBefore) - 1 by omega)
  obtain ⟨b, hb⟩ := Int.eq_ofNat_of_zero_le (show 0 ≤ span.stop.line + l.linesAfter by omega)
  have hfirst : l.firstLine span = (a : Int) + 1 := by
    rw [firstLine]
    omega
  refine ⟨a, b, by omega, hb.symm, ?_⟩
  rw [rows, hfirst, hb, Int.add_sub_cancel, Text.slice_natCast]

/-- The block of a list from one place to another. -/
theorem exists_block {α : Type} {l : List α} {i j : Nat} {x y : α} (hij : i ≤ j) (hx : l[i]? = some x)
    (hy : l[j]? = some y) : ∃ m, l.take (j + 1) = l.take i ++ x :: m ∧ (l.take (j + 1)).drop i = x :: m ∧
      i + m.length = j ∧ (x :: m).getLast? = some y := by
  have hj := (List.getElem?_eq_some_iff.1 hy).1
  have hlen : (l.take (j + 1)).length = j + 1 := List.length_take_of_le hj
  have hhead : ((l.take (j + 1)).drop i).head? = some x := by
    rw [List.head?_drop, List.getElem?_take_of_lt (Nat.lt_succ_of_le hij), hx]
  obtain ⟨m, hm⟩ := List.head?_eq_some_iff.1 hhead
  have hsplit := List.take_append_drop i (l.take (j + 1))
  rw [List.take_take, Nat.min_eq_left (by omega), hm] at hsplit
  have hlength := congrArg List.length hm
  rw [List.length_drop, hlen, List.length_cons] at hlength
  refine ⟨m, hsplit.symm, hm, by omega, ?_⟩
  rw [← hm, List.getLast?_drop, hlen, if_neg (by omega), List.getLast?_take, if_neg (by omega)]
  simp [hy]

/-- Only the lines of a span are coloured. -/
theorem colored_window {ls : List (List Char)} {a b i j : Nat} (hstart : span.start.line = (i : Int) + 1)
    (hstop : span.stop.line = (j : Int) + 1) (hij : i ≤ j) (hj : j < ls.length) (ha : a ≤ i) (hb : j + 1 ≤ b) :
    colored (number span ((a : Int) + 1) ((ls.take b).drop a))
      = colored (number span ((i : Int) + 1) ((ls.take (j + 1)).drop i)) := by
  have hi : i ≤ ls.length := by omega
  have hlen : ((ls.take i).drop a).length = i - a := by rw [List.length_drop, List.length_take_of_le hi]
  have hlen' : ((ls.take (j + 1)).drop i).length = j + 1 - i := by rw [List.length_drop, List.length_take_of_le hj]
  have hfirst : (a : Int) + 1 + ((i - a : Nat) : Int) = (i : Int) + 1 := by omega
  have hbefore : colored (number span ((a : Int) + 1) ((ls.take i).drop a)) = [] := colored_outside (Or.inl (by omega))
  have hbehind : colored (number span ((i : Int) + 1 + ((j + 1 - i : Nat) : Int)) ((ls.take b).drop (j + 1))) = [] :=
    colored_outside (Or.inr (by omega))
  rw [drop_take_append ls hi ha (show i ≤ b by omega), drop_take_append ls hj (show i ≤ j + 1 by omega) hb,
    number_append, number_append, colored_append, colored_append, hlen, hlen', hfirst, hbefore, hbehind,
    List.nil_append, List.append_nil]

/-- The lines up to the end of the span, cut where it starts and where it stops. -/
theorem unlines_block {ls m : List (List Char)} {i j c c' : Nat} {line last : List Char}
    (hstart : span.start = ⟨(i : Int) + 1, c⟩) (hstop : span.stop = ⟨(j : Int) + 1, c'⟩)
    (htake : ls.take (j + 1) = ls.take i ++ line :: m) (hlength : i + m.length = j)
    (hlast : (line :: m).getLast? = some last) (h : ColumnsInOrder span last) :
    Text.unlines (ls.take (j + 1)) = Text.terminate (ls.take i) ++ line.take c
      ++ Text.unlines (colored (number span ((i : Int) + 1) (line :: m))) ++ last.drop c' := by
  have hfirst : span.start.line ≤ (i : Int) + 1 := Int.le_of_eq (congrArg Position.line hstart)
  have hend : (i : Int) + 1 + m.length = span.stop.line := by
    rw [hstop]
    dsimp only
    omega
  have hcolumn : startOn span ((i : Int) + 1) = c := by rw [startOn, hstart, if_pos rfl]
  have hcolumn' : span.stop.column = c' := by rw [hstop]
  have hblock := unlines_colored line hfirst hend hlast h
  rw [hcolumn, hcolumn', Text.sliceTo_natCast, Text.sliceFrom_natCast] at hblock
  rw [htake, Text.unlines_append _ (List.cons_ne_nil _ _), hblock]
  simp only [List.append_assoc]

/-- What is coloured is what lies between the ends of the span. -/
theorem exists_colored (h : span.Within t) {a b : Nat} (ha : (a : Int) + 1 ≤ span.start.line)
    (hb : span.stop.line ≤ b) :
    ∃ o o', o ≤ o' ∧ o' ≤ t.length ∧ span = Span.ofOffsets t o o' ∧
      Text.unlines (colored (number span ((a : Int) + 1) (((Text.lines t).take b).drop a))) = (t.take o').drop o := by
  obtain ⟨i, c, line, hline, hc, hstart⟩ := Position.within_iff.1 h.start
  obtain ⟨j, c', last, hlast, hc', hstop⟩ := Position.within_iff.1 h.stop
  have hi : span.start.line = (i : Int) + 1 := by rw [hstart]
  have hj : span.stop.line = (j : Int) + 1 := by rw [hstop]
  have hij : i ≤ j := by
    have := Position.le_iff.1 h.le
    omega
  obtain ⟨m, htake, hdrop, hlength, hgetLast⟩ := exists_block hij hline hlast
  obtain ⟨rest, htext⟩ := Text.exists_eq_unlines_append t j
  have hblock := unlines_block hstart hstop htake hlength hgetLast (columnsInOrder_of_within h last)
  rw [colored_window hi hj hij (List.getElem?_eq_some_iff.1 hlast).1 (by omega) (by omega), hdrop]
  generalize Text.unlines (colored (number span ((i : Int) + 1) (line :: m))) = inside at hblock
  -- the text before the end of the span, by where the span starts and by where it stops
  have hends : Text.terminate ((Text.lines t).take i) ++ line.take c ++ inside
      = Text.terminate ((Text.lines t).take j) ++ last.take c' :=
    List.append_cancel_right (hblock.symm.trans (Text.unlines_take_succ hlast c'))
  rw [hblock, List.append_assoc _ (last.drop c')] at htext
  have hp := Position.ofOffset_of_getElem? hline hc (htext.trans (List.append_assoc _ _ _))
  have hq := Position.ofOffset_of_getElem? hlast hc' (htext.trans (congrArg (· ++ (last.drop c' ++ rest)) hends))
  rw [← hends] at hq
  generalize Text.terminate ((Text.lines t).take i) ++ line.take c = before at htext hp hq
  refine ⟨before.length, (before ++ inside).length, ?_, ?_, ?_, ?_⟩
  · rw [List.length_append]
    omega
  · have hlength := congrArg List.length htext
    rw [List.length_append] at hlength
    omega
  · obtain ⟨start, stop⟩ := span
    rw [Span.ofOffsets, hp, hq, ← hstart, ← hstop]
  · conv => rhs; rw [htext]
    rw [List.take_left, List.drop_left]

theorem text_of_mem_window (h : span.Within t) {a b : Nat} {r : Row}
    (hr : r ∈ number span ((a : Int) + 1) (((Text.lines t).take b).drop a)) :
    Diagnostic.lineAt? t r.number = some r.content.text := by
  obtain ⟨k, line, hline, rfl⟩ := exists_of_mem_number hr
  have hindex : (a : Int) + 1 + (k : Nat) = ((a + k : Nat) : Int) + 1 := by omega
  have hat : (Text.lines t)[a + k]? = some line := by
    rw [List.getElem?_drop, List.getElem?_take] at hline
    split at hline
    · exact hline
    · cases hline
  show Diagnostic.lineAt? t ((a : Int) + 1 + (k : Nat)) = some (contentOf span _ line).text
  rw [text_contentOf (columnsInOrder_of_within h line), hindex, Diagnostic.lineAt?_succ, hat]

theorem lists_rows (h : span.Within t) (hbefore : 0 ≤ l.linesBefore) (hafter : 0 ≤ l.linesAfter) :
    Lists l t span (l.rows t span) := by
  obtain ⟨a, b, ha, hb, hrows⟩ := exists_window h hafter
  have hstart := h.start.one_le
  have hle := Position.le_iff.1 h.le
  have hstop := h.stop.le_length
  rw [hrows]
  refine ⟨fun i => ?_, pairwise_map_number _ _ _, fun r hr => text_of_mem_window h hr, ?_,
    exists_colored h (by omega) (by omega)⟩
  · rw [mem_map_number, ← ha, ← hb, List.length_drop, List.length_take]
    omega
  · intro r hr
    obtain ⟨k, line, -, rfl⟩ := exists_of_mem_number hr
    exact isSome_inside?_iff

/-! ### Labels -/

theorem length_showInt_le {i j : Int} (hi : 0 ≤ i) (h : i ≤ j) :
    (Decimal.showInt i).length ≤ (Decimal.showInt j).length := by
  obtain ⟨m, rfl⟩ := Int.eq_ofNat_of_zero_le hi
  obtain ⟨n, rfl⟩ := Int.eq_ofNat_of_zero_le (Int.le_trans hi h)
  have hmn : m ≤ n := Int.ofNat_le.1 h
  have hlength (k : Nat) : (Decimal.showInt (k : Int)).length = (Nat.toDigits 10 k).length := by
    have hnot : ¬ (k : Int) < 0 := Int.not_lt.2 (Int.natCast_nonneg k)
    rw [Decimal.showInt, Decimal.integerChars, if_neg hnot, String.length_ofList]
    rfl
  rw [hlength, hlength]
  have hpos : 0 < (Nat.toDigits 10 n).length := Nat.length_toDigits_pos
  exact (Nat.length_toDigits_le_iff (by decide) hpos).2
    (Nat.lt_of_le_of_lt hmn ((Nat.length_toDigits_le_iff (by decide) hpos).1 (Nat.le_refl _)))

/-- How a row is shown: a mark or blanks, its number behind as many blanks as make up the width, and its line, in which
the colour is switched on and off. -/
inductive Shows (color : String) (width : Nat) : Row → String → Prop where
  | plain (i : Int) (line : List Char) (blanks : Nat) (h : blanks + (Decimal.showInt i).length = width) :
    Shows color width ⟨i, .plain line⟩
      ("   " ++ String.ofList (List.replicate blanks ' ') ++ Decimal.showInt i ++ ". " ++ String.ofList line)
  | marked (i : Int) (before inside after : List Char) (blanks : Nat)
    (h : blanks + (Decimal.showInt i).length = width) :
    Shows color width ⟨i, .marked before inside after⟩
      ("-> " ++ String.ofList (List.replicate blanks ' ') ++ Decimal.showInt i ++ ". " ++ String.ofList before
        ++ color ++ String.ofList inside ++ colorEnd ++ String.ofList after)

theorem shows_showRow (color : String) {width : Nat} {r : Row} (h : (Decimal.showInt r.number).length ≤ width) :
    Shows color width r (showRow color width r) := by
  obtain ⟨i, content⟩ := r
  have hwidth : width - (Decimal.showInt i).length + (Decimal.showInt i).length = width := Nat.sub_add_cancel h
  cases content with
  | plain line =>
    have key : Shows color width _ _ := .plain i line _ hwidth
    simpa only [showRow, String.append_assoc] using key
  | marked before inside after =>
    have key : Shows color width _ _ := .marked i before inside after _ hwidth
    simpa only [showRow, String.append_assoc] using key

/-- The last row has the widest label. -/
theorem length_showInt_le_labelWidth {rows : List Row} (hone : ∀ r ∈ rows, 0 ≤ r.number)
    (hordered : (rows.map Row.number).Pairwise (· < ·)) :
    ∀ r ∈ rows, (Decimal.showInt r.number).length ≤ labelWidth rows := by
  intro r hr
  obtain ⟨before, last, rfl⟩ : ∃ before last, rows = before ++ [last] :=
    ⟨_, _, (List.dropLast_concat_getLast (List.ne_nil_of_mem hr)).symm⟩
  have hwidth : labelWidth (before ++ [last]) = (Decimal.showInt last.number).length := by
    rw [labelWidth, List.getLast?_concat]
  rw [hwidth]
  refine length_showInt_le (hone r hr) ?_
  rcases List.mem_append.1 hr with hmem | hmem
  · rw [List.map_append, List.pairwise_append] at hordered
    exact Int.le_of_lt (hordered.2.2 _ (List.mem_map_of_mem hmem) _ (by simp))
  · exact Int.le_of_eq (congrArg Row.number (List.mem_singleton.1 hmem))

/-! ### The whole listing -/

/-- A listing shows the lines around a span under its heading, all labels as wide as the widest one. -/
def Faithful (l : Listing) (program : String) (span : Span) : Prop :=
  ∃ (rows : List Row) (shown : List String) (width : Nat), Lists l program.toList span rows ∧
    List.Forall₂ (Shows l.color width) rows shown ∧ (∃ r ∈ rows, (Decimal.showInt r.number).length = width) ∧
    l.render program span = l.title ++ ": " ++ l.before ++ "\n" ++ String.intercalate "\n" shown
      ++ if l.after = "" then "" else "\n" ++ l.after

theorem faithful_of_within {program : String} (h : span.Within program.toList) (hbefore : 0 ≤ l.linesBefore)
    (hafter : 0 ≤ l.linesAfter) : l.Faithful program span := by
  have hlists := lists_rows h hbefore hafter
  have hone : ∀ r ∈ l.rows program.toList span, 0 ≤ r.number := by
    intro r hr
    have := ((hlists.number_mem r.number).1 (List.mem_map_of_mem hr)).1
    omega
  have hne : l.rows program.toList span ≠ [] := by
    have hstart := h.start.one_le
    have hle := Position.le_iff.1 h.le
    have hstop := h.stop.le_length
    have hmem := (hlists.number_mem span.start.line).2 (by omega)
    intro hnil
    rw [hnil] at hmem
    cases hmem
  unfold Faithful render
  generalize l.rows program.toList span = rows at hlists hone hne ⊢
  refine ⟨rows, rows.map (showRow l.color (labelWidth rows)), labelWidth rows, hlists, ?_,
    ⟨rows.getLast hne, List.getLast_mem hne, ?_⟩, ?_⟩
  · rw [List.forall₂_map_right_iff, List.forall₂_same]
    exact fun r hr => shows_showRow l.color (length_showInt_le_labelWidth hone hlists.ordered r hr)
  · rw [labelWidth, List.getLast?_eq_some_getLast hne]
  · have hshown : (rows.map (showRow l.color (labelWidth rows))).isEmpty = false := by
      rw [List.isEmpty_eq_false_iff, Ne, List.map_eq_nil_iff]
      exact hne
    simp only [hshown, Bool.false_eq_true, if_false]
    split
    · rw [String.append_empty]
    · simp only [String.append_assoc]

end Listing

theorem within_of_mem_errors {limit : Nat} {program : String} {d : Diagnostic}
    (h : d ∈ (Parsed.ofProgram limit program).errors) : d.program = program ∧ d.span.Within program.toList := by
  rcases mem_errors_cases h with h | ⟨token, ht, reason, rfl⟩
  · obtain ⟨start, stop, hle, hstop, hd⟩ := exists_liesAt_of_mem_errors h
    refine ⟨hd.source, ?_⟩
    rw [hd.span]
    exact Span.within_ofOffsets hle hstop
  · obtain ⟨start, stop, hle, hstop, hd⟩ := exists_liesAt_of_mem_tokens ht
    refine ⟨rfl, ?_⟩
    rw [hd.span]
    exact Span.within_ofOffsets hle hstop

/-- Every listing of a span in a program is faithful, and every mistake in a program has one, with one line around. -/
theorem listing_faithful :
    (∀ (program : String) (span : Span) (l : Listing), span.Within program.toList → 0 ≤ l.linesBefore →
      0 ≤ l.linesAfter → l.Faithful program span) ∧
    ∀ (limit : Nat) (program : String), ∀ d ∈ (Parsed.ofProgram limit program).errors, d.program = program ∧
      d.span.Within program.toList ∧ ∀ remark, ∃ l : Listing, l.linesBefore = 1 ∧ l.linesAfter = 1 ∧
        d.listingWith? remark = some (l.render program d.span) ∧ l.Faithful program d.span := by
  refine ⟨fun program span l h hbefore hafter => Listing.faithful_of_within h hbefore hafter, ?_⟩
  intro limit program d hd
  obtain ⟨hprogram, hwithin⟩ := within_of_mem_errors hd
  refine ⟨hprogram, hwithin, fun remark => ?_⟩
  obtain ⟨m, hm⟩ : ∃ m, d.message? = some m := by
    rw [← Option.isSome_iff_exists, Diagnostic.message?_isSome_iff]
    exact isUnnamed_of_mem_errors hd
  let l : Listing := { title := d.cause.title, before := m, after := d.remark remark }
  have hone : (0 : Int) ≤ 1 := by decide
  refine ⟨l, rfl, rfl, ?_, Listing.faithful_of_within hwithin hone hone⟩
  rw [Diagnostic.listingWith?, hm, Option.map_some, hprogram]

end LoxSyntax
