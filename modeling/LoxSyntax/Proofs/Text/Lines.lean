import LoxSyntax.Proofs.Text.Position
import LoxSyntax.Text.Lines

/-!
# Lines and positions

A line feed splits a text in two: the lines of the text are those of both parts, and behind the line feed positions
are what they are in the second part alone, moved down by the lines of the first.  So the line and the column of a
position say how many lines are before it and how far into the next line it is.

* `lines_append`, `ofOffset_append_left`, `ofOffset_below`: what a line feed does to lines and positions.
* `lines_terminate_iff`: the lines of a text in which every line ends with a line feed.
* `ofOffset_length`: the position behind some lines and a part of the next one.
* `lineInduction`, `FirstLine.pieces_eq`: a text as the lines that are taken from it one after the other.
* `exists_line`: every offset is on a line of the text, not behind its end.
-/

namespace LoxSyntax

/-- A position `n` lines further down. -/
def Position.below (n : Nat) (p : Position) : Position := ⟨p.line + n, p.column⟩

/-- A span `n` lines further down. -/
def Span.below (n : Nat) (s : Span) : Span := ⟨s.start.below n, s.stop.below n⟩

namespace Text

theorem lines_append (a b : List Char) : lines (a ++ '\n' :: b) = lines a ++ lines b := by
  induction a with
  | nil => rfl
  | cons c a ih =>
    rw [List.cons_append, lines, lines, ih]
    by_cases hc : c = '\n'
    · rw [if_pos hc, if_pos hc, List.cons_append]
    · rw [if_neg hc, if_neg hc]
      rcases h : lines a with _ | ⟨l, ls⟩
      · exact absurd h (lines_ne_nil a)
      · rfl

private theorem lineStart_of_not_mem {t : List Char} (h : '\n' ∉ t) : lineStart t = 0 := by
  have := lineStart_append [] t
  rwa [if_neg h, List.nil_append] at this

theorem lineStart_append_newline (a b : List Char) : lineStart (a ++ '\n' :: b) = a.length + 1 + lineStart b := by
  have e : a ++ '\n' :: b = (a ++ ['\n']) ++ b := by simp
  rw [e, lineStart_append]
  by_cases h : '\n' ∈ b
  · rw [if_pos h, List.length_append, List.length_singleton]
  · rw [if_neg h, lineStart_concat, if_pos rfl, lineStart_of_not_mem h, Nat.add_zero]

end Text

namespace Position

theorem ofOffset_append_left {t : List Char} {o : Nat} (h : o ≤ t.length) (u : List Char) :
    ofOffset (t ++ u) o = ofOffset t o := by
  unfold ofOffset
  rw [List.take_append_of_le_length h]

/-- Behind a line feed the positions are those of what follows it, further down. -/
theorem ofOffset_below (t u : List Char) (o : Nat) :
    ofOffset (t ++ '\n' :: u) (t.length + 1 + o) = (ofOffset u o).below (1 + t.count '\n') := by
  have htake : (t ++ '\n' :: u).take (t.length + 1 + o) = t ++ '\n' :: u.take o := by
    rw [Nat.add_assoc, List.take_length_add_append, Nat.add_comm 1 o, List.take_succ_cons]
  have hcount : (t ++ '\n' :: u.take o).count '\n' = t.count '\n' + ((u.take o).count '\n' + 1) := by
    rw [List.count_append, List.count_cons_self]
  unfold ofOffset below
  rw [htake, hcount, Text.lineStart_append_newline]
  simp only [Position.mk.injEq]
  omega

end Position

/-! ### Whole lines before a part of a line -/

namespace Text

/-- Some lines, each with a line feed behind it. -/
def terminate (ls : List (List Char)) : List Char := ls.flatMap (· ++ ['\n'])

theorem terminate_cons (l : List Char) (ls : List (List Char)) :
    terminate (l :: ls) = l ++ '\n' :: terminate ls := by
  rw [terminate, List.flatMap_cons, List.append_assoc]
  rfl

theorem unlines_cons (l : List Char) {ls : List (List Char)} (h : ls ≠ []) :
    unlines (l :: ls) = l ++ '\n' :: unlines ls := by
  cases ls with
  | nil => exact absurd rfl h
  | cons m ls => rfl

theorem unlines_append (ls : List (List Char)) {ms : List (List Char)} (h : ms ≠ []) :
    unlines (ls ++ ms) = terminate ls ++ unlines ms := by
  induction ls with
  | nil => rfl
  | cons l ls ih =>
    rw [List.cons_append, unlines_cons l (List.append_ne_nil_of_right_ne_nil ls h), ih, terminate_cons,
      List.append_assoc, List.cons_append]

/-- Further lines go behind a text in the same way, whatever its lines are. -/
theorem exists_unlines_append (ms : List (List Char)) :
    ∃ rest, ∀ ls : List (List Char), ls ≠ [] → unlines (ls ++ ms) = unlines ls ++ rest := by
  cases ms with
  | nil => exact ⟨[], fun ls _ => by rw [List.append_nil, List.append_nil]⟩
  | cons m ms =>
    refine ⟨'\n' :: unlines (m :: ms), fun ls h => ?_⟩
    induction ls with
    | nil => exact absurd rfl h
    | cons l ls ih =>
      cases ls with
      | nil => rfl
      | cons l' ls =>
        have hne : l' :: ls ++ m :: ms ≠ [] := List.cons_ne_nil _ _
        rw [List.cons_append, unlines_cons l hne, ih (List.cons_ne_nil _ _), unlines_cons l (List.cons_ne_nil _ _),
          List.append_assoc, List.cons_append]

theorem exists_eq_unlines_append (t : List Char) (i : Nat) : ∃ rest, t = unlines ((lines t).take (i + 1)) ++ rest := by
  obtain ⟨rest, hrest⟩ := exists_unlines_append ((lines t).drop (i + 1))
  refine ⟨rest, ?_⟩
  have hne : (lines t).take (i + 1) ≠ [] := by
    rw [Ne, List.take_eq_nil_iff, not_or]
    exact ⟨Nat.succ_ne_zero i, lines_ne_nil t⟩
  rw [← hrest _ hne, List.take_append_drop, unlines_lines]

/-- The text up to the end of a line, cut in this line. -/
theorem unlines_take_succ {ls : List (List Char)} {i : Nat} {line : List Char} (h : ls[i]? = some line) (c : Nat) :
    unlines (ls.take (i + 1)) = terminate (ls.take i) ++ line.take c ++ line.drop c := by
  rw [List.take_add_one, h, Option.toList_some, unlines_append _ (List.cons_ne_nil _ _), List.append_assoc,
    List.take_append_drop]
  rfl

theorem lines_append_of_not_mem {u : List Char} (h : '\n' ∉ u) (t : List Char) :
    ∃ l ls, lines t = l :: ls ∧ lines (u ++ t) = (u ++ l) :: ls := by
  obtain ⟨l, ls, ht⟩ := List.exists_cons_of_ne_nil (lines_ne_nil t)
  refine ⟨l, ls, ht, ?_⟩
  induction u with
  | nil => exact ht
  | cons c u ih =>
    have hc : c ≠ '\n' := (List.ne_of_not_mem_cons h).symm
    have hu : '\n' ∉ u := List.not_mem_of_not_mem_cons h
    rw [List.cons_append, lines, if_neg hc, ih hu, List.cons_append]

theorem lines_terminate_append {ls : List (List Char)} (h : ∀ l ∈ ls, '\n' ∉ l) (t : List Char) :
    lines (terminate ls ++ t) = ls ++ lines t := by
  induction ls with
  | nil => rfl
  | cons l ls ih =>
    obtain ⟨hl, hls⟩ := List.forall_mem_cons.1 h
    have hline : lines l = [l] := by
      obtain ⟨m, ms, hm, hlm⟩ := lines_append_of_not_mem hl []
      obtain ⟨rfl, rfl⟩ := List.cons.inj hm
      rwa [List.append_nil] at hlm
    rw [terminate_cons, List.append_assoc, List.cons_append, lines_append, ih hls, hline]
    rfl

theorem count_terminate (ls : List (List Char)) :
    (terminate ls).count '\n' = ls.length + ls.flatten.count '\n' := by
  induction ls with
  | nil => rfl
  | cons l ls ih =>
    rw [terminate_cons, List.count_append, List.count_cons_self, ih, List.length_cons, List.flatten_cons,
      List.count_append]
    omega

theorem count_terminate_eq_length {ls : List (List Char)} :
    (terminate ls).count '\n' = ls.length ↔ ∀ l ∈ ls, '\n' ∉ l := by
  rw [count_terminate, Nat.add_eq_left, List.count_eq_zero, List.mem_flatten]
  simp only [not_exists, not_and]

/-- The lines of lines with a line feed behind each are these lines, and an empty one, unless one of them is not one
line. -/
theorem lines_terminate_iff {ls : List (List Char)} : lines (terminate ls) = ls ++ [[]] ↔ ∀ l ∈ ls, '\n' ∉ l := by
  constructor
  · intro h l hl
    exact not_mem_of_mem_lines (h ▸ List.mem_append_left [[]] hl)
  · intro h
    have key := lines_terminate_append h []
    rwa [List.append_nil] at key

theorem lineStart_terminate_append (ls : List (List Char)) {u : List Char} (h : '\n' ∉ u) :
    lineStart (terminate ls ++ u) = (terminate ls).length := by
  induction ls with
  | nil => exact lineStart_of_not_mem h
  | cons l ls ih =>
    rw [terminate_cons, List.append_assoc, List.cons_append, lineStart_append_newline, ih, List.length_append,
      List.length_cons]
    omega

/-- A text is whole lines and what there is of its last line. -/
theorem exists_terminate (t : List Char) :
    ∃ ls u, t = terminate ls ++ u ∧ (∀ l ∈ ls, '\n' ∉ l) ∧ '\n' ∉ u := by
  have hne := lines_ne_nil t
  have hsplit := List.dropLast_concat_getLast hne
  refine ⟨(lines t).dropLast, (lines t).getLast hne, ?_, fun l hl => ?_, ?_⟩
  · have htext := unlines_lines t
    rw [← hsplit, unlines_append _ (List.cons_ne_nil _ _)] at htext
    exact htext.symm
  · exact not_mem_of_mem_lines (List.dropLast_subset _ hl)
  · exact not_mem_of_mem_lines (List.getLast_mem hne)

/-! ### Lines as they are taken -/

/-- A line as it is taken from the front of a text: up to the first line feed, or all of the text if there is none. -/
inductive FirstLine : (line rest : List Char) → Prop
  | ended {l : List Char} (h : '\n' ∉ l) (rest : List Char) : FirstLine (l ++ ['\n']) rest
  | last {l : List Char} (hne : l ≠ []) (h : '\n' ∉ l) : FirstLine l []

theorem FirstLine.ne_nil {line rest : List Char} (h : FirstLine line rest) : line ≠ [] := by
  cases h with
  | ended h rest => exact List.append_ne_nil_of_right_ne_nil _ (List.cons_ne_nil _ _)
  | last hne h => exact hne

theorem exists_firstLine {t : List Char} (hne : t ≠ []) : ∃ line rest, FirstLine line rest ∧ t = line ++ rest := by
  by_cases h : '\n' ∈ t
  · obtain ⟨l, rest, rfl, hl⟩ := List.eq_append_cons_of_mem h
    exact ⟨l ++ ['\n'], rest, .ended hl rest, by simp⟩
  · exact ⟨t, [], .last hne h, (List.append_nil t).symm⟩

/-- Induction on a text: it is empty, or its first line comes in front of another text. -/
@[elab_as_elim]
theorem lineInduction {P : List Char → Prop} (nil : P [])
    (append : ∀ line rest, FirstLine line rest → P rest → P (line ++ rest)) (t : List Char) : P t := by
  induction hn : t.length using Nat.strongRecOn generalizing t with
  | ind n ih =>
    by_cases hne : t = []
    · rw [hne]
      exact nil
    · obtain ⟨line, rest, hline, rfl⟩ := exists_firstLine hne
      have hpos := List.length_pos_iff.2 hline.ne_nil
      rw [List.length_append] at hn
      exact append line rest hline (ih rest.length (by omega) rest rfl)

theorem pieces_of_not_mem {l : List Char} (hne : l ≠ []) (h : '\n' ∉ l) : pieces l = [l] := by
  induction l with
  | nil => exact absurd rfl hne
  | cons c l ih =>
    have hc : c ≠ '\n' := (List.ne_of_not_mem_cons h).symm
    rw [pieces, if_neg hc]
    by_cases hl : l = []
    · rw [hl]
      rfl
    · rw [ih hl (List.not_mem_of_not_mem_cons h)]

theorem pieces_append_newline {l : List Char} (h : '\n' ∉ l) (rest : List Char) :
    pieces (l ++ '\n' :: rest) = (l ++ ['\n']) :: pieces rest := by
  induction l with
  | nil => rfl
  | cons c l ih =>
    have hc : c ≠ '\n' := (List.ne_of_not_mem_cons h).symm
    rw [List.cons_append, pieces, if_neg hc, ih (List.not_mem_of_not_mem_cons h)]
    rfl

theorem FirstLine.pieces_eq {line rest : List Char} (h : FirstLine line rest) :
    pieces (line ++ rest) = line :: pieces rest := by
  cases h with
  | ended h rest =>
    rw [List.append_assoc]
    exact pieces_append_newline h rest
  | last hne h =>
    rw [List.append_nil]
    exact pieces_of_not_mem hne h

/-- The first line of whole lines stays what it is when more text comes behind them, and whole lines are left. -/
theorem FirstLine.append {line rest : List Char} (h : FirstLine line rest)
    (hclosed : (line ++ rest).getLast? = some '\n') (t : List Char) :
    FirstLine line (rest ++ t) ∧ (rest = [] ∨ rest.getLast? = some '\n') := by
  cases h with
  | ended h rest =>
    refine ⟨.ended h _, ?_⟩
    cases hlast : rest.getLast? with
    | none => exact Or.inl (List.getLast?_eq_none_iff.1 hlast)
    | some c =>
      rw [List.getLast?_append, hlast, Option.some_or] at hclosed
      exact Or.inr hclosed
  | last hne h =>
    rw [List.append_nil] at hclosed
    exact absurd (List.mem_of_getLast? hclosed) h

end Text

namespace Position

/-- Behind whole lines and a part of the next one, the lines are counted by the line and the part by the column. -/
theorem ofOffset_length {ls : List (List Char)} {u : List Char} (hls : ∀ l ∈ ls, '\n' ∉ l) (hu : '\n' ∉ u)
    (t : List Char) : ofOffset (Text.terminate ls ++ u ++ t) (Text.terminate ls ++ u).length
      = ⟨(ls.length : Int) + 1, u.length⟩ := by
  unfold ofOffset
  rw [List.take_left, List.count_append, Text.count_terminate_eq_length.2 hls, List.count_eq_zero.2 hu,
    Text.lineStart_terminate_append ls hu, List.length_append]
  simp only [Position.mk.injEq]
  omega

theorem ofOffset_of_getElem? {t : List Char} {i c : Nat} {line rest : List Char} (h : (Text.lines t)[i]? = some line)
    (hc : c ≤ line.length) (ht : t = Text.terminate ((Text.lines t).take i) ++ line.take c ++ rest) :
    ofOffset t (Text.terminate ((Text.lines t).take i) ++ line.take c).length = ⟨(i : Int) + 1, c⟩ := by
  have hi : i ≤ (Text.lines t).length := Nat.le_of_lt (List.getElem?_eq_some_iff.1 h).1
  have hbefore : ∀ l ∈ (Text.lines t).take i, '\n' ∉ l := fun l hl =>
    Text.not_mem_of_mem_lines (List.mem_of_mem_take hl)
  have hpart : '\n' ∉ line.take c := fun hmem =>
    Text.not_mem_of_mem_lines (List.mem_of_getElem? h) (List.mem_of_mem_take hmem)
  have key := ofOffset_length hbefore hpart rest
  rwa [← ht, List.length_take_of_le hi, List.length_take_of_le hc] at key

theorem exists_line {t : List Char} {o : Nat} (h : o ≤ t.length) :
    ∃ (i c : Nat) (l : List Char), (Text.lines t)[i]? = some l ∧ c ≤ l.length ∧
      ofOffset t o = ⟨(i : Int) + 1, c⟩ := by
  obtain ⟨ls, u, htake, hls, hu⟩ := Text.exists_terminate (t.take o)
  have ht : t = Text.terminate ls ++ u ++ t.drop o := by rw [← htake, List.take_append_drop]
  have ho : o = (Text.terminate ls ++ u).length := by rw [← htake, List.length_take_of_le h]
  obtain ⟨l, rest, -, hl⟩ := Text.lines_append_of_not_mem hu (t.drop o)
  refine ⟨ls.length, u.length, u ++ l, ?_, by rw [List.length_append]; omega, ?_⟩
  · have hlines : Text.lines t = ls ++ (u ++ l) :: rest := by
      rw [← hl, ← Text.lines_terminate_append hls, ← List.append_assoc, ← ht]
    rw [hlines, List.getElem?_append_right (Nat.le_refl _), Nat.sub_self]
    rfl
  · have key := ofOffset_length hls hu (t.drop o)
    rwa [← ht, ← ho] at key

end Position

end LoxSyntax
