import LoxSyntax.Proofs.Span
import LoxSyntax.Proofs.Token.Reading

/-!
# Histories of a token reader

The operations of a reader may be performed in any order, also where reading a program would not perform them, and some
of them may be refused.  Whatever has happened, the lexeme lies between its start and the place, the place is in the
program and never goes back, and what has been added to the tokens and the mistakes stays.

* `Keeps`: what a step keeps up; `keeps_begin` and the lemmas after it, for what all operations are made of.
* `keeps_perform`: one operation, `keeps_performAll`: a run of them.
* `performAll_sound`: what holds after every history.
-/

namespace LoxSyntax

namespace TokenReader

/-- The reader after some operations, whatever they answer. -/
def performAll (r : TokenReader) (actions : List Action) : TokenReader :=
  actions.foldl (fun r a => (r.perform a).2) r

/-- What holds of a reader after every history. -/
structure Sound (r : TokenReader) : Prop where
  text : r.cursor.toList = r.program.toList
  start_le : r.start ≤ r.current
  lineStart_le : r.lineStart ≤ r.current
  one_le_startLine : 1 ≤ r.startLine
  startLine_le : r.startLine ≤ r.line
  startColumn_nonneg : 0 ≤ r.startColumn
  -- as long as no line has begun behind the start of the lexeme, it is the line of the place
  startColumn_le (h : r.startLine = r.line) : r.startColumn ≤ (r.current : Int) - r.lineStart
  tokens : ∀ t ∈ r.tokens.toList, t.span.WellFormed
  errors : ∀ d ∈ r.errors.toList, d.span.WellFormed

/-- The reader `r'` comes from `r` by a step that loses nothing. -/
structure Keeps (r r' : TokenReader) : Prop where
  program : r'.program = r.program
  current_le : r.current ≤ r'.current
  tokens : r.tokens.toList <+: r'.tokens.toList
  errors : r.errors.toList <+: r'.errors.toList
  sound (h : Sound r) : Sound r'

variable {r r' r'' : TokenReader}

theorem Sound.current_le (h : Sound r) : r.current ≤ r.program.toList.length := by
  rw [← h.text, Cursor.length_toList]
  exact Nat.le_add_right _ _

theorem Sound.lexeme_eq (h : Sound r) :
    r.lexeme = String.ofList ((r.program.toList.take r.current).drop r.start) := by
  rw [lexeme, Cursor.behind_eq, h.text]
  rfl

theorem Sound.span_wellFormed (h : Sound r) : r.span.WellFormed := by
  have hone := h.one_le_startLine
  have hline := h.startLine_le
  have hstart := h.lineStart_le
  refine ⟨?_, ?_, h.startColumn_nonneg, ?_, fun e => h.startColumn_le ?_⟩ <;> simp only [span] at * <;> omega

theorem sound_ofProgram (program : String) : Sound (ofProgram program) := by
  refine ⟨rfl, ?_, ?_, ?_, ?_, ?_, ?_, ?_, ?_⟩ <;> simp [ofProgram, current, Cursor.atStart]

namespace Keeps

theorem refl (r : TokenReader) : Keeps r r :=
  ⟨rfl, Nat.le_refl _, List.prefix_rfl, List.prefix_rfl, id⟩

theorem trans (h : Keeps r r') (h' : Keeps r' r'') : Keeps r r'' :=
  ⟨h'.program.trans h.program, h.current_le.trans h'.current_le, h.tokens.trans h'.tokens, h.errors.trans h'.errors,
    h'.sound ∘ h.sound⟩

end Keeps

/-! ### What operations are made of -/

theorem keeps_begin (r : TokenReader) : Keeps r r.begin := by
  refine ⟨rfl, Nat.le_refl _, List.prefix_rfl, List.prefix_rfl, fun h => ?_⟩
  have hline := h.one_le_startLine.trans h.startLine_le
  have hcolumn := h.lineStart_le
  refine ⟨h.text, Nat.le_refl _, h.lineStart_le, hline, Nat.le_refl _, ?_, fun _ => Int.le_refl _, h.tokens, h.errors⟩
  show (0 : Int) ≤ r.current - r.lineStart
  omega

theorem keeps_newline (r : TokenReader) : Keeps r r.newline := by
  refine ⟨rfl, Nat.le_refl _, List.prefix_rfl, List.prefix_rfl, fun h => ?_⟩
  have hline := h.startLine_le
  refine ⟨h.text, h.start_le, Nat.le_refl _, h.one_le_startLine, Nat.le_succ_of_le hline, h.startColumn_nonneg, ?_,
    h.tokens, h.errors⟩
  -- the line of the lexeme is not the last one any more
  intro (e : r.startLine = r.line + 1)
  omega

theorem keeps_pass (r : TokenReader) : Keeps r r.pass := by
  have hcurrent : r.current ≤ r.pass.current := by
    show r.cursor.offset ≤ r.cursor.next.offset
    rw [Cursor.offset_next]
    exact Nat.le_add_right _ _
  refine ⟨rfl, hcurrent, List.prefix_rfl, List.prefix_rfl, fun h => ?_⟩
  refine ⟨?_, h.start_le.trans hcurrent, h.lineStart_le.trans hcurrent, h.one_le_startLine, h.startLine_le,
    h.startColumn_nonneg, ?_, h.tokens, h.errors⟩
  · show r.cursor.next.toList = _
    rw [Cursor.toList_next]
    exact h.text
  · intro e
    have := h.startColumn_le e
    show r.startColumn ≤ (r.pass.current : Int) - r.lineStart
    omega

theorem keeps_addToken (r : TokenReader) (kind : Kind) (literal : Literal) : Keeps r (r.addToken kind literal) := by
  refine ⟨rfl, Nat.le_refl _, ?_, List.prefix_rfl, fun h => ?_⟩
  · simp [addToken]
  · refine ⟨h.text, h.start_le, h.lineStart_le, h.one_le_startLine, h.startLine_le, h.startColumn_nonneg,
      h.startColumn_le, ?_, h.errors⟩
    intro t ht
    rw [addToken, Array.toList_push, List.mem_append, List.mem_singleton] at ht
    rcases ht with ht | rfl
    · exact h.tokens t ht
    · exact h.span_wellFormed

theorem keeps_addError (r : TokenReader) (cause : Cause) : Keeps r (r.addError cause) := by
  refine ⟨rfl, Nat.le_refl _, List.prefix_rfl, ?_, fun h => ?_⟩
  · simp [addError]
  · refine ⟨h.text, h.start_le, h.lineStart_le, h.one_le_startLine, h.startLine_le, h.startColumn_nonneg,
      h.startColumn_le, h.tokens, ?_⟩
    intro d hd
    rw [addError, Array.toList_push, List.mem_append, List.mem_singleton] at hd
    rcases hd with hd | rfl
    · exact h.errors d hd
    · exact h.span_wellFormed

theorem keeps_consume (r : TokenReader) (n : Nat) : Keeps r (r.consume n) := by
  induction n generalizing r with
  | zero => exact .refl r
  | succ n ih =>
    rw [consume]
    split
    · exact .refl r
    · split
      · exact ((keeps_pass r).trans (keeps_newline _)).trans (ih _)
      · exact (keeps_pass r).trans (ih _)

theorem keeps_emit (r : TokenReader) (shape : Shape) : Keeps r (r.emit shape).2 := by
  cases shape with
  | operator kind => exact keeps_addToken r kind .null
  | word => exact keeps_addToken r _ .null
  | number =>
    rw [emit]
    split
    · exact keeps_addToken r .number _
    · exact .refl r
  | string value => exact keeps_addToken r .string _
  | blank => exact .refl r
  | comment => exact .refl r
  | unexpected => exact keeps_addError r _
  | unterminated => exact keeps_addError r _

theorem keeps_readToken (r : TokenReader) : Keeps r r.readToken.2 := by
  rw [readToken]
  split
  · exact .refl r
  · exact (keeps_consume r _).trans (keeps_emit _ _)

theorem keeps_readString (r : TokenReader) (quote : Option Char) : Keeps r (r.readString quote).2 := by
  unfold readString
  dsimp only
  split
  · exact ((keeps_consume r _).trans (keeps_pass _)).trans (keeps_emit _ _)
  · exact (keeps_consume r _).trans (keeps_emit _ _)

theorem keeps_readNumber (r : TokenReader) : Keeps r r.readNumber.2 := by
  unfold readNumber
  exact (keeps_consume r _).trans (keeps_emit _ _)

theorem keeps_readWord (r : TokenReader) : Keeps r r.readWord.2 := by
  unfold readWord
  exact (keeps_consume r _).trans (keeps_emit _ _)

theorem keeps_lineComment (r : TokenReader) : Keeps r r.lineComment := by
  unfold lineComment
  exact keeps_consume r _

theorem keeps_blockComment (r : TokenReader) : Keeps r r.blockComment := by
  unfold blockComment
  exact keeps_consume r _

theorem keeps_accept (r : TokenReader) (expected : Option Char) : Keeps r (r.accept expected).2 := by
  rw [accept]
  split
  · exact .refl r
  · split
    · exact keeps_pass r
    · exact .refl r

theorem keeps_advance (r : TokenReader) : Keeps r r.advance.2 := by
  rw [advance]
  split
  · exact .refl r
  · exact keeps_pass r

theorem answer_snd {α : Type} (f : α → Answer) (o : Outcome α) : (Outcome.answer f o).2 = o.2 := rfl

theorem peek_snd (r : TokenReader) (distance : Int) : (r.peek distance).2 = r := by
  unfold peek
  dsimp only
  split
  · rfl
  · split <;> rfl

/-! ### Reading all tokens -/

theorem performAll_append (r : TokenReader) (as bs : List Action) :
    r.performAll (as ++ bs) = (r.performAll as).performAll bs := List.foldl_append

/-- Starting a lexeme and reading a token, `n` times. -/
def rounds (n : Nat) : List Action := (List.replicate n [Action.begin, .readToken]).flatten

private theorem of_mem_rounds {n : Nat} {a : Action} (h : a ∈ rounds n) : a = .begin ∨ a = .readToken := by
  obtain ⟨l, hl, ha⟩ := List.mem_flatten.1 h
  rw [List.eq_of_mem_replicate hl] at ha
  simpa using ha

private theorem exists_rounds_readSegments (r : TokenReader) : ∃ n, r.readSegments.2 = r.performAll (rounds n) := by
  fun_induction readSegments r with
  | case1 r h => exact ⟨0, rfl⟩
  | case2 r h e r' hr =>
    refine ⟨1, ?_⟩
    show r' = r.begin.readToken.2
    rw [hr]
  | case3 r h r' hr ih =>
    obtain ⟨n, hn⟩ := ih
    refine ⟨n + 1, ?_⟩
    rw [hn, rounds, rounds, List.replicate_succ, List.flatten_cons, performAll_append]
    show _ = r.begin.readToken.2.performAll _
    rw [hr]

/-- Reading all tokens is a history of other operations. -/
theorem exists_performAll_readAll (r : TokenReader) :
    ∃ n ending, (ending = [] ∨ ending = [Action.begin, .addToken .endOfInput .null]) ∧
      (r.perform .readAll).2 = r.performAll (rounds n ++ ending) := by
  obtain ⟨n, hn⟩ := exists_rounds_readSegments r
  show ∃ n ending, _ ∧ r.readAll.2 = _
  unfold readAll
  split
  · rename_i e r' hr
    rw [hr] at hn
    exact ⟨n, [], Or.inl rfl, by rw [List.append_nil, ← hn]⟩
  · rename_i r' hr
    rw [hr] at hn
    refine ⟨n, _, Or.inr rfl, ?_⟩
    rw [performAll_append, ← hn]
    rfl

/-! ### Histories -/

private theorem keeps_performAll_of {actions : List Action}
    (h : ∀ a ∈ actions, ∀ r : TokenReader, Keeps r (r.perform a).2) (r : TokenReader) :
    Keeps r (r.performAll actions) := by
  induction actions generalizing r with
  | nil => exact .refl r
  | cons a actions ih =>
    obtain ⟨ha, hrest⟩ := List.forall_mem_cons.1 h
    exact (ha r).trans (ih hrest (r.perform a).2)

theorem keeps_perform (r : TokenReader) (a : Action) : Keeps r (r.perform a).2 := by
  cases a with
  | begin => exact keeps_begin r
  | readToken =>
    rw [perform, answer_snd]
    exact keeps_readToken r
  | lineComment => exact keeps_lineComment r
  | blockComment => exact keeps_blockComment r
  | readString quote =>
    rw [perform, answer_snd]
    exact keeps_readString r quote
  | readNumber =>
    rw [perform, answer_snd]
    exact keeps_readNumber r
  | readWord =>
    rw [perform, answer_snd]
    exact keeps_readWord r
  | newline => exact keeps_newline r
  | advance =>
    rw [perform, answer_snd]
    exact keeps_advance r
  | accept expected => exact keeps_accept r expected
  | peek distance =>
    rw [perform, answer_snd, peek_snd]
    exact .refl r
  | atEnd => exact .refl r
  | lexeme => exact .refl r
  | span => exact .refl r
  | addToken kind literal => exact keeps_addToken r kind literal
  | readAll =>
    obtain ⟨n, ending, hending, h⟩ := exists_performAll_readAll r
    rw [h]
    apply keeps_performAll_of
    intro a ha r
    have hcases : a = .begin ∨ a = .readToken ∨ a = .addToken .endOfInput .null := by
      rcases List.mem_append.1 ha with ha | ha
      · exact (of_mem_rounds ha).imp_right Or.inl
      · rcases hending with rfl | rfl
        · cases ha
        · simp only [List.mem_cons, List.not_mem_nil, or_false] at ha
          exact ha.imp_right Or.inr
    rcases hcases with rfl | rfl | rfl
    · exact keeps_begin r
    · exact keeps_readToken r
    · exact keeps_addToken r _ _

theorem keeps_performAll (r : TokenReader) (actions : List Action) : Keeps r (r.performAll actions) :=
  keeps_performAll_of (fun a _ r => keeps_perform r a) r

/-! ### What is added -/

/-- The tokens that the step from `r` to `r'` adds have the lexeme and the place that `r'` has. -/
def Emits (r r' : TokenReader) : Prop :=
  ∃ ts, r'.tokens.toList = r.tokens.toList ++ ts ∧ ∀ t ∈ ts, t.lexeme = r'.lexeme ∧ t.line = r'.line ∧ t.span = r'.span

theorem emits_of_eq (h : r'.tokens = r.tokens) : Emits r r' :=
  ⟨[], by rw [h, List.append_nil], fun t ht => absurd ht List.not_mem_nil⟩

theorem emits_addToken (h : r'.tokens = r.tokens) (kind : Kind) (literal : Literal) :
    Emits r (r'.addToken kind literal) := by
  refine ⟨[⟨kind, r'.lexeme, literal, r'.line, r'.span⟩], ?_, ?_⟩
  · rw [addToken, Array.toList_push, h]
  · intro t ht
    rw [List.mem_singleton.1 ht]
    exact ⟨rfl, rfl, rfl⟩

theorem emits_emit (h : r'.tokens = r.tokens) (shape : Shape) : Emits r (r'.emit shape).2 := by
  cases shape with
  | operator kind => exact emits_addToken h _ _
  | word => exact emits_addToken h _ _
  | number =>
    rw [emit]
    split
    · exact emits_addToken h _ _
    · exact emits_of_eq h
  | string value => exact emits_addToken h _ _
  | _ => exact emits_of_eq h

theorem tokens_consume (r : TokenReader) (n : Nat) : (r.consume n).tokens = r.tokens := by
  rw [consume_eq]

theorem emits_readToken (r : TokenReader) : Emits r r.readToken.2 := by
  unfold readToken
  split
  · exact emits_of_eq rfl
  · exact emits_emit (tokens_consume r _) _

theorem emits_readString (r : TokenReader) (quote : Option Char) : Emits r (r.readString quote).2 := by
  unfold readString
  dsimp only
  split
  · have h : (r.consume (Segment.body quote r.remaining).length).pass.tokens = r.tokens := tokens_consume r _
    exact emits_emit h _
  · exact emits_emit (tokens_consume r _) _

theorem emits_readNumber (r : TokenReader) : Emits r r.readNumber.2 := by
  unfold readNumber
  exact emits_emit (tokens_consume r _) _

theorem emits_readWord (r : TokenReader) : Emits r r.readWord.2 := by
  unfold readWord
  exact emits_emit (tokens_consume r _) _

theorem emits_lineComment (r : TokenReader) : Emits r r.lineComment := by
  unfold lineComment
  exact emits_of_eq (tokens_consume r _)

theorem emits_blockComment (r : TokenReader) : Emits r r.blockComment := by
  unfold blockComment
  exact emits_of_eq (tokens_consume r _)

theorem emits_accept (r : TokenReader) (expected : Option Char) : Emits r (r.accept expected).2 := by
  unfold accept
  split
  · exact emits_of_eq rfl
  · split <;> exact emits_of_eq rfl

theorem emits_advance (r : TokenReader) : Emits r r.advance.2 := by
  unfold advance
  split <;> exact emits_of_eq rfl

/-- An operation other than reading all tokens adds tokens at the lexeme that it leaves. -/
theorem emits_perform (r : TokenReader) {a : Action} (h : a ≠ .readAll) : Emits r (r.perform a).2 := by
  cases a with
  | readAll => exact absurd rfl h
  | begin => exact emits_of_eq rfl
  | readToken =>
    rw [perform, answer_snd]
    exact emits_readToken r
  | lineComment => exact emits_lineComment r
  | blockComment => exact emits_blockComment r
  | readString quote =>
    rw [perform, answer_snd]
    exact emits_readString r quote
  | readNumber =>
    rw [perform, answer_snd]
    exact emits_readNumber r
  | readWord =>
    rw [perform, answer_snd]
    exact emits_readWord r
  | newline => exact emits_of_eq rfl
  | advance =>
    rw [perform, answer_snd]
    exact emits_advance r
  | accept expected => exact emits_accept r expected
  | peek distance =>
    rw [perform, answer_snd, peek_snd]
    exact emits_of_eq rfl
  | atEnd => exact emits_of_eq rfl
  | lexeme => exact emits_of_eq rfl
  | span => exact emits_of_eq rfl
  | addToken kind literal => exact emits_addToken rfl kind literal

/-! ### Operations that are refused -/

theorem Sound.atEnd_iff (h : Sound r) : r.atEnd = true ↔ r.current = r.program.toList.length := by
  have hsize : r.program.toList.length = r.cursor.offset + r.cursor.after.length := by
    rw [← h.text, Cursor.length_toList, Cursor.size]
  rw [atEnd, Cursor.atEnd, List.isEmpty_iff, ← List.length_eq_zero_iff, current]
  omega

theorem remaining_eq_nil (r : TokenReader) : r.remaining = [] ↔ r.atEnd = true := List.isEmpty_iff.symm

theorem perform_advance_of_atEnd (h : r.atEnd = true) : r.perform .advance = (.error .endOfText, r) := by
  simp only [perform, advance, (remaining_eq_nil r).2 h]
  rfl

theorem perform_readToken_of_atEnd (h : r.atEnd = true) : r.perform .readToken = (.error .endOfText, r) := by
  simp only [perform, readToken, (remaining_eq_nil r).2 h]
  rfl

theorem emit_ne_endOfText (r : TokenReader) (shape : Shape) : (r.emit shape).1 ≠ .error .endOfText := by
  cases shape with
  | number =>
    rw [emit]
    split <;> simp
  | _ => simp [emit]

theorem perform_advance_refused_iff (r : TokenReader) :
    (r.perform .advance).1 = .error .endOfText ↔ r.atEnd = true := by
  refine ⟨fun h => ?_, fun h => by rw [perform_advance_of_atEnd h]⟩
  rw [← remaining_eq_nil]
  by_contra hne
  obtain ⟨c, rest, hr⟩ := List.exists_cons_of_ne_nil hne
  simp [perform, advance, hr, Outcome.answer, Except.map] at h

theorem perform_readToken_refused_iff (r : TokenReader) :
    (r.perform .readToken).1 = .error .endOfText ↔ r.atEnd = true := by
  refine ⟨fun h => ?_, fun h => by rw [perform_readToken_of_atEnd h]⟩
  rw [← remaining_eq_nil]
  by_contra hne
  obtain ⟨c, rest, hr⟩ := List.exists_cons_of_ne_nil hne
  simp only [perform, readToken, hr, Outcome.answer] at h
  refine emit_ne_endOfText (r.consume ((Segment.extent c rest).2 + 1)) (Segment.extent c rest).1 ?_
  rcases he : (emit _ _).1 with e | u
  · rw [he] at h
    exact congrArg _ (Except.error.inj h)
  · rw [he] at h
    cases h

/-! ### Every history -/

/-- After every history the lexeme lies between its start and the place, and the place in the program; a further
operation moves the place on and adds to the tokens and mistakes, its tokens with the lexeme and place that it leaves.
Reading all tokens is a history of other operations, and at the end of the program nothing is passed or read. -/
theorem performAll_sound (program : String) (actions : List Action) :
    let r := (ofProgram program).performAll actions
    (r.Sound ∧ r.program = program ∧ r.current ≤ program.toList.length) ∧
    (∀ a, r.current ≤ (r.perform a).2.current ∧ r.tokens.toList <+: (r.perform a).2.tokens.toList ∧
      r.errors.toList <+: (r.perform a).2.errors.toList) ∧
    (∀ a, a ≠ .readAll → ∃ ts, (r.perform a).2.tokens.toList = r.tokens.toList ++ ts ∧ ∀ t ∈ ts,
      t.lexeme = String.ofList ((program.toList.take (r.perform a).2.current).drop (r.perform a).2.start) ∧
      t.line = (r.perform a).2.line ∧ t.span = (r.perform a).2.span) ∧
    (∃ n ending, (ending = [] ∨ ending = [Action.begin, .addToken .endOfInput .null]) ∧
      (r.perform .readAll).2 = r.performAll (rounds n ++ ending)) ∧
    (r.atEnd = true ↔ r.current = program.toList.length) ∧
    (∀ a, a = .advance ∨ a = .readToken →
      ((r.perform a).1 = .error .endOfText ↔ r.atEnd = true) ∧ (r.atEnd = true → (r.perform a).2 = r)) := by
  intro r
  have hkeeps : Keeps (ofProgram program) r := keeps_performAll _ actions
  have hsound : r.Sound := hkeeps.sound (sound_ofProgram program)
  have hprogram : r.program = program := hkeeps.program
  refine ⟨⟨hsound, hprogram, hprogram ▸ hsound.current_le⟩, ?_, ?_, exists_performAll_readAll r,
    hprogram ▸ hsound.atEnd_iff, ?_⟩
  · intro a
    have ha := keeps_perform r a
    exact ⟨ha.current_le, ha.tokens, ha.errors⟩
  · intro a ha
    obtain ⟨ts, htokens, hts⟩ := emits_perform r ha
    refine ⟨ts, htokens, fun t ht => ?_⟩
    obtain ⟨hlexeme, hplace⟩ := hts t ht
    have hkept := keeps_perform r a
    refine ⟨?_, hplace⟩
    rw [hlexeme, (hkept.sound hsound).lexeme_eq, hkept.program, hprogram]
  · rintro a (rfl | rfl)
    · exact ⟨perform_advance_refused_iff r, fun h => by rw [perform_advance_of_atEnd h]⟩
    · exact ⟨perform_readToken_refused_iff r, fun h => by rw [perform_readToken_of_atEnd h]⟩

end TokenReader

end LoxSyntax
