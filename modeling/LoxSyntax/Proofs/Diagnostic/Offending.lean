import LoxSyntax.Proofs.Diagnostic.Listing
import LoxSyntax.Proofs.Expr.Extent

/-!
# The text that a diagnostic is about

The span of a mistake in a program holds a piece of it: a single character, a string literal that is never closed, or
the lexeme of a token.  The offending text is read back from the line where the span starts, between the columns of the
span.  This is the piece when the span stops on the line where it starts, and only then, since a part of a line has no
line feed in it.

* `Span.Holds.unique`: a span of a text holds only one piece of it.
* `offending_eq_iff`: the offending text is what the span holds if there is no line feed in it.
* `holds_of_mem_errors`: what the spans of the mistakes in a program hold.
* `offending_exact`: both for all programs, and `offending_exact_open`, mistakes that go on to another line.
-/

namespace LoxSyntax

/-! ### Pieces of a text -/

namespace Span

/-- The piece `u` of a text lies between the ends of a span. -/
def Holds (t : List Char) (s : Span) (u : List Char) : Prop :=
  ∃ a b, a ≤ b ∧ b ≤ t.length ∧ s = Span.ofOffsets t a b ∧ u = (t.take b).drop a

variable {t u u' : List Char} {s : Span}

theorem Holds.unique (h : s.Holds t u) (h' : s.Holds t u') : u' = u := by
  obtain ⟨a, b, -, -, rfl, rfl⟩ := h
  obtain ⟨a', b', -, -, hs, rfl⟩ := h'
  rw [Span.ofOffsets, Span.ofOffsets, Span.mk.injEq] at hs
  obtain rfl := Position.ofOffset_injective t hs.1
  obtain rfl := Position.ofOffset_injective t hs.2
  rfl

theorem Holds.line_eq (h : s.Holds t u) : s.stop.line = s.start.line + u.count '\n' := by
  obtain ⟨a, b, hab, -, rfl, rfl⟩ := h
  exact Position.line_ofOffset_add hab

theorem Holds.line_eq_iff (h : s.Holds t u) : s.start.line = s.stop.line ↔ '\n' ∉ u := by
  rw [h.line_eq, ← List.count_eq_zero]
  omega

theorem Holds.within (h : s.Holds t u) : s.Within t := by
  obtain ⟨a, b, hab, hb, rfl, -⟩ := h
  exact within_ofOffsets hab hb

/-- What is before a piece of a text is whole lines and a part of the line where the piece begins. -/
theorem Holds.exists_terminate (h : s.Holds t u) : ∃ (ls : List (List Char)) (v rest : List Char),
    t = Text.terminate ls ++ (v ++ u) ++ rest ∧ (∀ l ∈ ls, '\n' ∉ l) ∧ '\n' ∉ v ∧
      s = Span.ofOffsets t (Text.terminate ls ++ v).length (Text.terminate ls ++ (v ++ u)).length := by
  obtain ⟨a, b, hab, hb, rfl, rfl⟩ := h
  obtain ⟨ls, v, htake, hls, hv⟩ := Text.exists_terminate (t.take a)
  have htake' : t.take b = Text.terminate ls ++ (v ++ (t.take b).drop a) := by
    conv => lhs; rw [← List.take_append_drop a (t.take b)]
    rw [List.take_take, Nat.min_eq_left hab, htake, List.append_assoc]
  refine ⟨ls, v, t.drop b, ?_, hls, hv, ?_⟩
  · rw [← htake', List.take_append_drop]
  · rw [← htake, ← htake', List.length_take_of_le (hab.trans hb), List.length_take_of_le hb]

/-- A piece without a line feed is a part of one line. -/
theorem Holds.exists_line (h : s.Holds t u) (hu : '\n' ∉ u) : ∃ v rest : List Char,
    Diagnostic.lineAt? t s.start.line = some (v ++ u ++ rest) ∧ s.start.column = v.length ∧
      s.stop.column = (v ++ u).length := by
  obtain ⟨ls, v, rest, ht, hls, hv, hs⟩ := h.exists_terminate
  have hvu : '\n' ∉ v ++ u := by simp [hv, hu]
  have hstart : s.start = ⟨(ls.length : Int) + 1, v.length⟩ := by
    have key := Position.ofOffset_length hls hv (u ++ rest)
    rw [List.append_assoc, ← List.append_assoc v, ← List.append_assoc, ← ht] at key
    rw [hs]
    exact key
  have hstop : s.stop = ⟨(ls.length : Int) + 1, (v ++ u).length⟩ := by
    have key := Position.ofOffset_length hls hvu rest
    rw [← ht] at key
    rw [hs]
    exact key
  obtain ⟨l, ms, -, hlines⟩ := Text.lines_append_of_not_mem hvu rest
  refine ⟨v, l, ?_, by rw [hstart], by rw [hstop]⟩
  have hline : s.start.line = (ls.length : Int) + 1 := by rw [hstart]
  rw [hline, Diagnostic.lineAt?_succ, ht, List.append_assoc, Text.lines_terminate_append hls, hlines,
    List.getElem?_append_right (Nat.le_refl _), Nat.sub_self]
  rfl

end Span

/-! ### Offending texts -/

namespace Diagnostic

variable {d : Diagnostic} {u : List Char}

/-- The offending text is the part of the line where the span starts that is between the columns of the span. -/
theorem offending_eq (h : d.span.Within d.program.toList) : ∃ (line : List Char) (c c' : Nat),
    lineAt? d.program.toList d.span.start.line = some line ∧ d.span.start.column = c ∧ d.span.stop.column = c' ∧
      d.offending.toList = (line.take c').drop c := by
  obtain ⟨i, c, line, hline, -, hstart⟩ := Position.within_iff.1 h.start
  obtain ⟨_, c', _, -, -, hstop⟩ := Position.within_iff.1 h.stop
  have hat : lineAt? d.program.toList d.span.start.line = some line := by
    rw [hstart]
    exact (lineAt?_succ _ i).trans hline
  have hc : d.span.start.column = c := by rw [hstart]
  have hc' : d.span.stop.column = c' := by rw [hstop]
  refine ⟨line, c, c', hat, hc, hc', ?_⟩
  rw [offending, hat]
  show (String.ofList (Text.slice line d.span.start.column d.span.stop.column)).toList = _
  rw [String.toList_ofList, hc, hc', Text.slice_natCast]

/-- The offending text is what the span holds exactly when that has no line feed in it. -/
theorem offending_eq_iff (h : d.span.Holds d.program.toList u) :
    d.offending.toList = u ↔ d.span.start.line = d.span.stop.line := by
  obtain ⟨line, c, c', hline, hc, hc', hoffending⟩ := offending_eq h.within
  rw [h.line_eq_iff, hoffending]
  constructor
  · rintro rfl hmem
    exact Text.not_mem_of_mem_lines (mem_lines_of_lineAt? hline) (List.mem_of_mem_take (List.mem_of_mem_drop hmem))
  · intro hu
    obtain ⟨v, rest, hline', hv, hvu⟩ := h.exists_line hu
    obtain rfl : line = v ++ u ++ rest := Option.some.inj (hline.symm.trans hline')
    obtain rfl : c = v.length := Int.ofNat.inj (hc.symm.trans hv)
    obtain rfl : c' = (v ++ u).length := Int.ofNat.inj (hc'.symm.trans hvu)
    rw [List.take_left, List.drop_left]

/-- The piece of a program that a mistake in it is about. -/
def About (program : String) (d : Diagnostic) (u : List Char) : Prop :=
  (d.cause = .unexpectedCharacter ∧ ∃ c, u = [c]) ∨
    (d.cause = .unterminatedString ∧ (∃ q ∈ Segment.quotes, u.head? = some q) ∧ u <:+ program.toList) ∨
    ∃ token ∈ (Lexed.ofProgram program).tokens, ∃ reason, d.cause = .malformed token reason ∧ u = token.lexeme.toList

end Diagnostic

/-! ### The mistakes in a program -/

theorem Segment.First.ne_newline {t : List Char} {g : Segment} (h : First t g) (hg : g.shape = .unexpected) :
    ∃ c, g.text = [c] ∧ c ≠ '\n' := by
  cases h with
  | longest h =>
    obtain ⟨rest, -, hw⟩ := h
    dsimp only at hg
    subst hg
    cases hw
  | unterminated => cases hg
  | @unexpected c rest _ h =>
    refine ⟨c, rfl, ?_⟩
    rintro rfl
    exact h .blank ['\n'] ⟨rest, rfl, .blank (by decide) rest⟩

theorem Located.holds_of_mem {program : String} {p : Located} (h : p ∈ ofProgram program) :
    (Span.ofOffsets program.toList p.start p.stop).Holds program.toList p.segment.text := by
  obtain ⟨-, hlt, hle⟩ := (tiles_ofProgram program).bounds.2 p h
  have hpre := Segment.prefix_of_first? (Segment.first?_eq_some_iff.2 (first_of_mem_ofProgram h))
  exact ⟨p.start, p.stop, Nat.le_of_lt hlt, hle, rfl, text_eq hpre⟩

theorem holds_of_mem_tokens {program : String} {token : Token} (h : token ∈ (Lexed.ofProgram program).tokens) :
    token.span.Holds program.toList token.lexeme.toList := by
  obtain ⟨start, stop, hle, hstop, ht⟩ := exists_liesAt_of_mem_tokens h
  exact ⟨start, stop, hle, hstop, ht.span, by rw [ht.lexeme, String.toList_ofList]⟩

/-- What the span of a mistake in a program holds.  It goes on to another line only at a string literal. -/
theorem holds_of_mem_errors {limit : Nat} {program : String} {d : Diagnostic}
    (h : d ∈ (Parsed.ofProgram limit program).errors) :
    d.program = program ∧ ∃ u, d.span.Holds program.toList u ∧ d.About program u ∧
      ('\n' ∈ u → d.cause = .unterminatedString ∨
        ∃ token reason, d.cause = .malformed token reason ∧ token.kind = .string) := by
  rcases mem_errors_cases h with h | ⟨token, ht, why, rfl⟩
  · rw [lexed_errors] at h
    obtain ⟨p, hp, hd⟩ := List.mem_filterMap.1 h
    have hfirst := Located.first_of_mem_ofProgram hp
    have hholds := Located.holds_of_mem hp
    obtain ⟨cause, hcause, rfl⟩ := Option.map_eq_some_iff.1 hd
    rcases Segment.cause?_eq_some_iff.1 hcause with ⟨hs, rfl⟩ | ⟨hs, rfl⟩
    · obtain ⟨c, hc, hne⟩ := hfirst.ne_newline hs
      rw [hc] at hholds
      refine ⟨rfl, [c], hholds, Or.inl ⟨rfl, c, rfl⟩, fun hmem => ?_⟩
      exact absurd (List.mem_singleton.1 hmem).symm hne
    · obtain ⟨htext, hquote⟩ := hfirst.of_unterminated hs
      rw [htext] at hholds
      exact ⟨rfl, _, hholds, Or.inr (Or.inl ⟨rfl, hquote, List.drop_suffix _ _⟩), fun _ => Or.inl rfl⟩
  · have hholds := holds_of_mem_tokens ht
    refine ⟨rfl, _, hholds, Or.inr (Or.inr ⟨token, ht, _, rfl, rfl⟩), fun hmem => ?_⟩
    refine Or.inr ⟨token, why.message, rfl, ?_⟩
    -- other tokens stop on the line where they start
    by_contra hk
    exact hholds.line_eq_iff.1 ((inOrder_lexed program).line_eq token ht hk) hmem

/-- The span of every mistake in a program holds what the mistake is about.  The offending text is what is between the
columns of the span on the line where it starts, and this is what the mistake is about exactly when the span stops on
the line where it starts; otherwise the mistake is at a string literal. -/
theorem offending_exact (limit : Nat) (program : String) :
    ∀ d ∈ (Parsed.ofProgram limit program).errors, d.program = program ∧
    ∃ u, d.span.Holds program.toList u ∧ (∀ u', d.span.Holds program.toList u' → u' = u) ∧ d.About program u ∧
      (d.offending.toList = u ↔ d.span.start.line = d.span.stop.line) ∧
      (d.span.start.line ≠ d.span.stop.line → d.cause = .unterminatedString ∨
        ∃ token reason, d.cause = .malformed token reason ∧ token.kind = .string) ∧
      ∃ (line : List Char) (c c' : Nat), Diagnostic.lineAt? program.toList d.span.start.line = some line ∧
        d.span.start.column = c ∧ d.span.stop.column = c' ∧ d.offending.toList = (line.take c').drop c := by
  intro d hd
  obtain ⟨hprogram, u, hholds, habout, hstring⟩ := holds_of_mem_errors hd
  have hholds' : d.span.Holds d.program.toList u := by rwa [hprogram]
  have hline := Diagnostic.offending_eq hholds'.within
  rw [hprogram] at hline
  refine ⟨hprogram, u, hholds, fun u' => hholds.unique, habout, Diagnostic.offending_eq_iff hholds', ?_, hline⟩
  intro hne
  refine hstring ?_
  by_contra hu
  exact hne (hholds.line_eq_iff.2 hu)

/-- A string token without a place, on one line. -/
theorem offending_exact_token :
    let program := "1 \"ab\""
    let d : Diagnostic := ⟨program, ⟨⟨1, 2⟩, ⟨1, 6⟩⟩,
      .malformed ⟨.string, "\"ab\"", .text "ab", 1, ⟨⟨1, 2⟩, ⟨1, 6⟩⟩⟩ "Expect end of expression."⟩
    d ∈ (Parsed.ofProgram 100 program).errors ∧ d.program = program ∧
      ∃ u, d.span.Holds program.toList u ∧ (∀ u', d.span.Holds program.toList u' → u' = u) ∧ d.About program u ∧
        (d.offending.toList = u ↔ d.span.start.line = d.span.stop.line) ∧
        (d.span.start.line ≠ d.span.stop.line → d.cause = .unterminatedString ∨
          ∃ token reason, d.cause = .malformed token reason ∧ token.kind = .string) ∧
        ∃ (line : List Char) (c c' : Nat), Diagnostic.lineAt? program.toList d.span.start.line = some line ∧
          d.span.start.column = c ∧ d.span.stop.column = c' ∧ d.offending.toList = (line.take c').drop c := by
  intro program d
  have hd : d ∈ (Parsed.ofProgram 100 program).errors := List.mem_of_head? (by decide +kernel)
  exact ⟨hd, offending_exact 100 program d hd⟩

/-- A string literal on two lines that is never closed, and a string token on two lines without a place. -/
theorem offending_exact_open :
    (∃ d ∈ (Parsed.ofProgram 100 "\"ab\nc").errors, d.cause = .unterminatedString ∧
      d.span.Holds "\"ab\nc".toList "\"ab\nc".toList ∧ d.offending = "\"") ∧
    ∃ d ∈ (Parsed.ofProgram 100 "1 \"a\nb\"").errors, d.span.Holds "1 \"a\nb\"".toList "\"a\nb\"".toList ∧
      d.offending = "" := by
  have hopen : (Parsed.ofProgram 100 "\"ab\nc").errors.head?
      = some ⟨"\"ab\nc", ⟨⟨1, 0⟩, ⟨2, 1⟩⟩, .unterminatedString⟩ := by decide +kernel
  have htoken : (Parsed.ofProgram 100 "1 \"a\nb\"").errors.head? = some ⟨"1 \"a\nb\"", ⟨⟨1, 2⟩, ⟨2, 2⟩⟩,
      .malformed ⟨.string, "\"a\nb\"", .text "a\nb", 2, ⟨⟨1, 2⟩, ⟨2, 2⟩⟩⟩ "Expect end of expression."⟩ := by
    decide +kernel
  refine ⟨⟨_, List.mem_of_head? hopen, rfl, ?_, by decide +kernel⟩, _, List.mem_of_head? htoken, ?_, by decide +kernel⟩
  · exact ⟨0, 5, by decide, by decide +kernel, by decide +kernel, by decide +kernel⟩
  · exact ⟨2, 7, by decide, by decide +kernel, by decide +kernel, by decide +kernel⟩

end LoxSyntax
