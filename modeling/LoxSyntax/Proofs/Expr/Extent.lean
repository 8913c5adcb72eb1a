import LoxSyntax.Proofs.Expr.Assembled
import LoxSyntax.Proofs.Token.Placement

/-!
# How far nodes reach

The tokens of a program lie one after the other.  So the span of a node starts where the first of its tokens starts and
stops on the line where the last of them stops.  The columns of a join are chosen by the lines on which the two spans
start, and this gives the column where the last token stops only if nothing that begins on the line of the last operand
stops further right.

* `Span.Reaches.join`: the join of two spans that come one after the other.
* `inOrder_lexed`: the tokens of a program come one after the other.
* `reaches_of_assembled`: how far an expression reaches, by induction on how it is assembled.
* `node_extent`: how far the nodes of a program reach, and when their spans are those of their tokens.
* `node_extent_overhung`: a span that is not, because of a string on two lines.
-/

namespace LoxSyntax

/-! ### Joins of spans in order -/

namespace Span

/-- A span that starts where `first` starts, and stops on the line where `last` stops and no further left. -/
structure Reaches (s first last : Span) : Prop where
  start : s.start = first.start
  line : s.stop.line = last.stop.line
  column : last.stop.column ≤ s.stop.column

theorem Reaches.refl (s : Span) : s.Reaches s s := ⟨rfl, rfl, Int.le_refl _⟩

private theorem join_of_le {a b : Span} (hstart : a.start ≤ b.start) (hline : a.stop.line ≤ b.stop.line) :
    (a.join b).start = a.start ∧ (a.join b).stop.line = b.stop.line ∧
      (a.join b).stop.column = if a.start.line = b.start.line then max a.stop.column b.stop.column
        else b.stop.column := by
  have hmax : max a.stop.line b.stop.line = b.stop.line := Int.max_eq_right hline
  rw [Position.le_iff] at hstart
  rcases hstart with h | ⟨h, hc⟩
  · have hmin : min a.start.line b.start.line = a.start.line := Int.min_eq_left (Int.le_of_lt h)
    have hne : a.start.line ≠ b.start.line := Int.ne_of_lt h
    simp [join, joinColumns, h, hne, hmin, hmax]
  · have hmin : min a.start.column b.start.column = a.start.column := Int.min_eq_left hc
    simp [join, joinColumns, h, Position.eq_iff, hmin, hmax]

/-- The join of what comes first and what comes then reaches from the one to the other.  It stops where the second has
to stop unless that one does not, or the first begins on the line of the second and stops further right. -/
theorem Reaches.join {a b first mid mid' last : Span} (ha : a.Reaches first mid) (hb : b.Reaches mid' last)
    (hfirst : first.start ≤ mid.stop) (hmid : mid.stop ≤ mid'.start) (hlast : mid'.start ≤ last.stop) :
    (a.join b).Reaches first last ∧ ((a.join b).stop = last.stop ↔
      b.stop = last.stop ∧ ¬ (a.start.line = b.start.line ∧ b.stop.column < a.stop.column)) := by
  have hstart : a.start ≤ b.start := by
    rw [ha.start, hb.start]
    exact hfirst.trans hmid
  have hline : a.stop.line ≤ b.stop.line := by
    have h := hmid.trans hlast
    rw [Position.le_iff] at h
    have h₁ := ha.line
    have h₂ := hb.line
    omega
  obtain ⟨h₁, h₂, h₃⟩ := join_of_le hstart hline
  have hcolumn := hb.column
  have hlast := hb.line
  refine ⟨⟨h₁.trans ha.start, h₂.trans hb.line, ?_⟩, ?_⟩
  · rw [h₃]
    split <;> omega
  · rw [Position.eq_iff, Position.eq_iff, h₂, h₃]
    split <;> omega

end Span

/-! ### Tokens in order -/

/-- Tokens that come one after the other, each of them on one line unless it is a string. -/
structure Token.InOrder (w : List Token) : Prop where
  start_le_stop : ∀ t ∈ w, t.span.start ≤ t.span.stop
  pairwise : w.Pairwise fun t t' => t.span.stop ≤ t'.span.start
  line_eq : ∀ t ∈ w, t.kind ≠ .string → t.span.start.line = t.span.stop.line

namespace Token

theorem InOrder.sublist {v w : List Token} (h : InOrder w) (hs : v.Sublist w) : InOrder v :=
  ⟨fun t ht => h.start_le_stop t (hs.subset ht), h.pairwise.sublist hs, fun t ht => h.line_eq t (hs.subset ht)⟩

theorem InOrder.head_le_getLast {w : List Token} (h : InOrder w) {first last : Token} (hf : w.head? = some first)
    (hl : w.getLast? = some last) : first.span.start ≤ last.span.stop := by
  obtain ⟨w, rfl⟩ := List.head?_eq_some_iff.1 hf
  have hfirst := h.start_le_stop first List.mem_cons_self
  rcases List.mem_cons.1 (List.mem_of_getLast? hl) with rfl | hm
  · exact hfirst
  · have hmid := List.rel_of_pairwise_cons h.pairwise hm
    have hlast := h.start_le_stop last (List.mem_cons_of_mem first hm)
    exact (hfirst.trans hmid).trans hlast

end Token

private theorem line_eq_of_mem {program : String} {token : Token} (h : token ∈ (Lexed.ofProgram program).tokens)
    (hk : token.kind ≠ .string) : token.span.start.line = token.span.stop.line := by
  rw [lexed_tokens] at h
  rcases List.mem_append.1 h with h | h
  · obtain ⟨p, hp, ht⟩ := List.mem_filterMap.1 h
    have hfirst := Located.first_of_mem_ofProgram hp
    have htext := Located.text_eq (Segment.prefix_of_first? (Segment.first?_eq_some_iff.2 hfirst))
    obtain ⟨-, -, hn⟩ := (hfirst.token?_cases ht).resolve_left fun h => hk h.1
    rw [htext] at hn
    rw [(Segment.token?_fields ht).1]
    exact Position.line_ofOffset_eq (Nat.le_add_right _ _) hn
  · rw [List.mem_singleton.1 h]
    rfl

/-- The tokens of a program come one after the other. -/
theorem inOrder_lexed (program : String) : Token.InOrder (Lexed.ofProgram program).tokens := by
  refine ⟨?_, ?_, fun t ht hk => line_eq_of_mem ht hk⟩
  · intro t ht
    obtain ⟨f, hf, htoken⟩ := exists_finding ht
    obtain ⟨hle, -, hexact⟩ := findings_exact hf
    rw [(hexact.liesAt htoken).span]
    exact Position.ofOffset_mono _ hle
  · rw [← findings_token?]
    refine List.pairwise_filterMap.2 ((findings_pairwise program).imp_of_mem ?_)
    intro f f' hf hf' hle t ht t' ht'
    rw [((findings_exact hf).2.2.liesAt ht).span, ((findings_exact hf').2.2.liesAt ht').span]
    exact Position.ofOffset_mono _ hle

/-! ### Expressions -/

/-- At the end of an expression there is an operand that begins on the line of what stands before it, and does not reach
as far to the right. -/
def Expr.Overhung : Expr Span → Prop
  | .literal _ _ | .grouping _ _ => False
  | .unary _ op e => (op.span.start.line = e.info.start.line ∧ e.info.stop.column < op.span.stop.column) ∨ e.Overhung
  | .binary _ l _ r => (l.info.start.line = r.info.start.line ∧ r.info.stop.column < l.info.stop.column) ∨ r.Overhung

/-- An expression reaches from its first token to its last one, and stops where that one stops unless an operand at its
end is overhung. -/
theorem reaches_of_assembled {e : Expr Span} {w : List Token} (h : e.Assembled w) (ho : Token.InOrder w) :
    ∃ first last, w.head? = some first ∧ w.getLast? = some last ∧ e.info.Reaches first.span last.span ∧
      (e.info.stop = last.span.stop ↔ ¬ e.Overhung) := by
  induction h with
  | @literal v t h => exact ⟨t, t, rfl, rfl, .refl t.span, iff_of_true rfl not_false⟩
  | @unary op e w he ih =>
    have how : Token.InOrder w := ho.sublist (List.sublist_cons_self op w)
    obtain ⟨first, last, hf, hl, hr, hstop⟩ := ih how
    have hfirst := ho.start_le_stop op List.mem_cons_self
    have hmid := List.rel_of_pairwise_cons ho.pairwise (List.mem_of_head? hf)
    obtain ⟨hj, hjs⟩ := Span.Reaches.join (.refl op.span) hr hfirst hmid (how.head_le_getLast hf hl)
    refine ⟨op, last, rfl, by simp [List.getLast?_cons, hl], hj, hjs.trans ?_⟩
    show _ ↔ ¬ (_ ∨ e.Overhung)
    rw [hstop, not_or, and_comm]
  | @binary op l r v w hl hr ihl ihr =>
    have hov : Token.InOrder v := ho.sublist (List.sublist_append_left v (op :: w))
    have how : Token.InOrder w := ho.sublist ((List.sublist_cons_self op w).trans (List.sublist_append_right v _))
    obtain ⟨first, mid, hf, hm, hrl, -⟩ := ihl hov
    obtain ⟨mid', last, hf', hl', hrr, hstop⟩ := ihr how
    have hmid : mid.span.stop ≤ mid'.span.start := by
      have hp := (List.pairwise_append.1 ho.pairwise).2.2
      exact hp mid (List.mem_of_getLast? hm) mid' (List.mem_cons_of_mem op (List.mem_of_head? hf'))
    obtain ⟨hj, hjs⟩ := hrl.join hrr (hov.head_le_getLast hf hm) hmid (how.head_le_getLast hf' hl')
    refine ⟨first, last, by simp [hf], by simp [List.getLast?_append, List.getLast?_cons, hl'], hj, hjs.trans ?_⟩
    show _ ↔ ¬ (_ ∨ r.Overhung)
    rw [hstop, not_or, and_comm]
  | @grouping opening closing e w hop hc he ih =>
    have hmo : opening ∈ opening :: w ++ [closing] := List.mem_cons_self
    have hmc : closing ∈ opening :: w ++ [closing] := by simp
    have hfirst := ho.start_le_stop opening hmo
    have hmid := List.rel_of_pairwise_cons ho.pairwise (show closing ∈ w ++ [closing] by simp)
    have hlast := ho.start_le_stop closing hmc
    obtain ⟨hj, hjs⟩ := Span.Reaches.join (.refl opening.span) (.refl closing.span) hfirst hmid hlast
    refine ⟨opening, closing, rfl, List.getLast?_concat, hj, iff_of_true (hjs.2 ⟨rfl, ?_⟩) not_false⟩
    -- a closing parenthesis is on one line, and so it is not overhung by the opening one
    have hline := ho.line_eq closing hmc (by simp [hc])
    rw [Position.le_iff] at hfirst hmid hlast
    omega

/-! ### The nodes of a program -/

theorem assembled_of_tree? {limit : Nat} {program : String} {e : Expr Span}
    (h : (Parsed.ofProgram limit program).tree? = some e) :
    e.Assembled (ExprReader.body (Lexed.ofProgram program).tokens) := by
  obtain ⟨r', hp⟩ := ExprReader.parse_of_tree? h
  exact ExprReader.assembled_of_parse hp

/-- A node of a program starts where its first token starts and stops on the line where its last token stops; and its
span is that of its tokens exactly when no operand at its end is overhung. -/
theorem node_extent {limit : Nat} {program : String} {e : Expr Span}
    (h : (Parsed.ofProgram limit program).tree? = some e) {n : Expr Span} {u : List Token}
    (hn : (n, u) ∈ e.parts (ExprReader.body (Lexed.ofProgram program).tokens)) :
    n.Spells u ∧ ∃ first last, u.head? = some first ∧ u.getLast? = some last ∧
      n.info.start = first.span.start ∧ n.info.stop.line = last.span.stop.line ∧
      (n.info.stop = last.span.stop ↔ ¬ n.Overhung) := by
  obtain ⟨ha, hu⟩ := (assembled_of_tree? h).of_mem_parts hn
  have hbody : (ExprReader.body (Lexed.ofProgram program).tokens).Sublist (Lexed.ofProgram program).tokens :=
    List.takeWhile_sublist _
  have ho : Token.InOrder u := (inOrder_lexed program).sublist (hu.sublist.trans hbody)
  obtain ⟨first, last, hf, hl, hr, hstop⟩ := reaches_of_assembled ha ho
  exact ⟨ha.spells, first, last, hf, hl, hr.start, hr.line, hstop⟩

/-- An expression that ends on the line after its beginning, with a string over both lines in it. -/
theorem node_extent_grouping :
    let program := "!(\"\n\" > null)"
    ∃ e n u, (Parsed.ofProgram 100 program).tree? = some e ∧
      (n, u) ∈ e.parts (ExprReader.body (Lexed.ofProgram program).tokens) ∧ n.Spells u ∧
      ∃ first last, u.head? = some first ∧ u.getLast? = some last ∧ n.info.start = first.span.start ∧
        n.info.stop.line = last.span.stop.line ∧ (n.info.stop = last.span.stop ↔ ¬ n.Overhung) := by
  intro program
  let inner : Expr Span := .binary ⟨⟨1, 2⟩, ⟨2, 8⟩⟩ (.literal ⟨⟨1, 2⟩, ⟨2, 1⟩⟩ (.text "\n"))
    ⟨.greater, ">", .null, 2, ⟨⟨2, 2⟩, ⟨2, 3⟩⟩⟩ (.literal ⟨⟨2, 4⟩, ⟨2, 8⟩⟩ .null)
  let e : Expr Span := .unary ⟨⟨1, 0⟩, ⟨2, 9⟩⟩ ⟨.bang, "!", .null, 1, ⟨⟨1, 0⟩, ⟨1, 1⟩⟩⟩
    (.grouping ⟨⟨1, 1⟩, ⟨2, 9⟩⟩ inner)
  let tokens := ExprReader.body (Lexed.ofProgram program).tokens
  have ht : (Parsed.ofProgram 100 program).tree? = some e := by decide +kernel
  have hn : (inner, ((tokens.drop 1).drop 1).take 3) ∈ e.parts tokens :=
    List.mem_cons_of_mem _ (List.mem_cons_of_mem _ List.mem_cons_self)
  exact ⟨e, inner, _, ht, hn, node_extent ht hn⟩

/-- Behind a string of five columns that begins on the same line, an operand that ends in the first column of the next
line is overhung. -/
theorem node_extent_overhung :
    let program := "\"abc\" == \"\n\""
    ∃ e last, (Parsed.ofProgram 100 program).tree? = some e ∧
      (ExprReader.body (Lexed.ofProgram program).tokens).getLast? = some last ∧
      (e, ExprReader.body (Lexed.ofProgram program).tokens)
        ∈ e.parts (ExprReader.body (Lexed.ofProgram program).tokens) ∧
      e.info.stop = ⟨2, 5⟩ ∧ last.span.stop = ⟨2, 1⟩ := by
  intro program
  let e : Expr Span := .binary ⟨⟨1, 0⟩, ⟨2, 5⟩⟩ (.literal ⟨⟨1, 0⟩, ⟨1, 5⟩⟩ (.text "abc"))
    ⟨.equalEqual, "==", .null, 1, ⟨⟨1, 6⟩, ⟨1, 8⟩⟩⟩ (.literal ⟨⟨1, 9⟩, ⟨2, 1⟩⟩ (.text "\n"))
  let last : Token := ⟨.string, "\"\n\"", .text "\n", 2, ⟨⟨1, 9⟩, ⟨2, 1⟩⟩⟩
  have ht : (Parsed.ofProgram 100 program).tree? = some e := by decide +kernel
  have hl : (ExprReader.body (Lexed.ofProgram program).tokens).getLast? = some last := by decide +kernel
  exact ⟨e, last, ht, hl, List.mem_cons_self, rfl, rfl⟩

end LoxSyntax
