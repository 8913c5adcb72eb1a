import LoxSyntax.Proofs.Decimal.Numeral
import LoxSyntax.Proofs.Text.Position
import LoxSyntax.Proofs.Token.Longest
import LoxSyntax.Token.Reader

/-!
# Reading segments

A reader in its program knows the line and the column of its place.  Reading the segment at the place keeps that, moves
the place over the segment, and adds what the segment stands for.

* `Segment.wordKind_eq`, `Segment.read?_numeral`: words and numerals stand for what is read.
* `Placed.consume`: consuming characters keeps line and column in step with the place.
* `Placed.covers`: what consuming the characters of a segment does.
* `Placed.readToken_spec`: what reading one segment does.
-/

namespace LoxSyntax

/-! ### What segments stand for -/

namespace Segment

/-- The reserved words and the kinds of their tokens. -/
def keywords : List (String × Kind) :=
  [("or", .or), ("else", .elseWord), ("false", .falseWord), ("for", .forWord), ("fun", .funWord), ("if", .ifWord),
    ("null", .nullWord), ("print", .printWord), ("return", .returnWord), ("super", .superWord), ("this", .thisWord),
    ("true", .trueWord), ("var", .varWord), ("while", .whileWord)]

/-- The kind of a word that may be reserved. -/
def wordKind (word : String) : Kind := (keywords.lookup word).getD .identifier

/-- The number that digits stand for, with a point among them or not. -/
def numeralValue (t : List Char) : Float :=
  let whole := t.takeWhile (· != '.')
  let fraction := (t.dropWhile (· != '.')).drop 1
  Decimal.nearest (Nat.ofDigitChars 10 (whole ++ fraction) 0) (-(fraction.length : Int))

/-- The token that a segment at a span stands for. -/
def token? (g : Segment) (span : Span) : Option Token :=
  let token (kind : Kind) (literal : Literal) : Token := ⟨kind, String.ofList g.text, literal, span.stop.line, span⟩
  match g.shape with
  | .operator kind => some (token kind .null)
  | .word => some (token (wordKind (String.ofList g.text)) .null)
  | .number => some (token .number (.number (numeralValue g.text)))
  | .string value => some (token .string (.text (String.ofList value)))
  | _ => none

/-- The cause of the mistake that a segment is. -/
def cause? (g : Segment) : Option Cause :=
  match g.shape with
  | .unexpected => some .unexpectedCharacter
  | .unterminated => some .unterminatedString
  | _ => none

theorem prefix_of_first? {t : List Char} {g : Segment} (h : first? t = some g) : g.text <+: t := by
  cases t with
  | nil => cases h
  | cons c t =>
    rw [first?, Option.some.injEq] at h
    rw [← h]
    exact (List.prefix_cons_inj c).2 (List.take_prefix _ t)

private theorem lookup_map_symbol (kinds : List Kind) (word : String) :
    (kinds.map fun k => (k.symbol, k)).lookup word = kinds.find? (·.symbol == word) := by
  induction kinds with
  | nil => rfl
  | cons k kinds ih =>
    rw [List.map_cons, List.lookup_cons, List.find?_cons, ih, Bool.beq_comm]

/-- A reader looks the kind of a word up in the same table. -/
theorem wordKind_eq (word : String) : TokenReader.wordKind word = wordKind word := by
  have htable : keywords = ("or", .or) :: Kind.words.map fun k => (k.symbol, k) := rfl
  rw [TokenReader.wordKind, Kind.reserved?, wordKind, htable, List.lookup_cons, lookup_map_symbol]
  by_cases hor : word = "or"
  · rw [if_pos hor, hor]
    rfl
  · rw [if_neg hor, beq_eq_false_iff_ne.2 hor]

private theorem digitsValue_eq {ds : List Char} (hd : ∀ c ∈ ds, isDigit c = true) (n : Nat) :
    Decimal.digitsValue n (ds.filterMap Text.digitValue?) = Nat.ofDigitChars 10 ds n := by
  induction ds generalizing n with
  | nil => rfl
  | cons c ds ih =>
    obtain ⟨hc, hds⟩ := List.forall_mem_cons.1 hd
    rw [List.filterMap_cons, Decimal.digitValue?_of_isDigit hc]
    exact ih hds _

private theorem ne_point {ds : List Char} (hd : ∀ c ∈ ds, isDigit c = true) : ∀ c ∈ ds, (c != '.') = true := by
  intro c hc
  rw [bne_iff_ne]
  exact ne_of_class (hd c hc) (by decide)

private theorem length_filterMap_digitValue? {ds : List Char} (hd : ∀ c ∈ ds, isDigit c = true) :
    (ds.filterMap Text.digitValue?).length = ds.length := by
  induction ds with
  | nil => rfl
  | cons c ds ih =>
    obtain ⟨hc, hds⟩ := List.forall_mem_cons.1 hd
    rw [List.filterMap_cons, Decimal.digitValue?_of_isDigit hc]
    exact congrArg (· + 1) (ih hds)

private theorem numeralValue_whole {ds : List Char} (hd : ∀ c ∈ ds, isDigit c = true) :
    numeralValue ds = Decimal.nearest (Nat.ofDigitChars 10 ds 0) 0 := by
  rw [numeralValue, List.takeWhile_eq_self_iff.2 (ne_point hd), List.dropWhile_eq_nil_iff.2 (ne_point hd)]
  simp

private theorem numeralValue_fraction {ds fs : List Char} (hd : ∀ c ∈ ds, isDigit c = true) :
    numeralValue (ds ++ '.' :: fs) = Decimal.nearest (Nat.ofDigitChars 10 (ds ++ fs) 0) (-(fs.length : Int)) := by
  rw [numeralValue, List.takeWhile_append_of_pos (ne_point hd), List.dropWhile_append_of_pos (ne_point hd)]
  simp

/-- A numeral is read as the number that its digits stand for. -/
theorem read?_numeral {t : List Char} {g : Segment} (h : First t g) (hg : g.shape = .number) :
    Decimal.read? g.text = some (numeralValue g.text) := by
  cases h with
  | longest h =>
    obtain ⟨rest, -, hw⟩ := h
    dsimp only at hg
    subst hg
    cases hw with
    | whole hd =>
      rw [Decimal.read?_whole hd, Decimal.ofDigits, digitsValue_eq hd, numeralValue_whole hd]
      rfl
    | decimal hd hf =>
      rw [Decimal.read?_fraction hd hf, Decimal.ofDigits, digitsValue_eq hd, digitsValue_eq hf,
        ← Nat.ofDigitChars_append, length_filterMap_digitValue? hf, numeralValue_fraction hd]
  | unterminated => cases hg
  | unexpected => cases hg

theorem read?_isSome {t : List Char} {g : Segment} (h : First t g) (hg : g.shape = .number) :
    (Decimal.read? g.text).isSome = true := by
  rw [read?_numeral h hg, Option.isSome_some]

end Segment

/-- A segment and the offset where it starts. -/
structure Located where
  start : Nat
  segment : Segment

namespace Located

/-- The offset where a segment stops. -/
def stop (p : Located) : Nat := p.start + p.segment.text.length

/-- The token that a segment of a text stands for. -/
def token? (t : List Char) (p : Located) : Option Token := p.segment.token? (Span.ofOffsets t p.start p.stop)

/-- The mistake that a segment of a program is. -/
def mistake? (program : String) (p : Located) : Option Diagnostic :=
  p.segment.cause?.map (Diagnostic.mk program (Span.ofOffsets program.toList p.start p.stop))

/-- Segments one after the other. -/
def sequence (start : Nat) : List Segment → List Located
  | [] => []
  | g :: rest => ⟨start, g⟩ :: sequence (start + g.text.length) rest

theorem text_eq {t : List Char} {p : Located} (h : p.segment.text <+: t.drop p.start) :
    p.segment.text = (t.take p.stop).drop p.start := by
  rw [stop, List.drop_take, Nat.add_sub_cancel_left]
  exact List.prefix_iff_eq_take.1 h

end Located

namespace TokenReader

/-! ### Readers in their program -/

/-- A reader in its program that knows the line and the column of its place. -/
structure Placed (r : TokenReader) : Prop where
  text : r.cursor.toList = r.program.toList
  position : (⟨r.line, (r.current : Int) - r.lineStart⟩ : Position) = Position.ofOffset r.program.toList r.current

theorem placed_ofProgram (program : String) : Placed (ofProgram program) := ⟨rfl, rfl⟩

variable {r : TokenReader}

theorem Placed.remaining (h : Placed r) : r.remaining = r.program.toList.drop r.current := by
  rw [← h.text]
  exact r.cursor.drop_offset.symm

theorem Placed.step (h : Placed r) {c : Char} {rest : List Char} (hr : r.remaining = c :: rest) :
    Placed (if c = '\n' then r.pass.newline else r.pass) := by
  have htext : r.pass.cursor.toList = r.program.toList := by
    rw [← h.text]
    exact r.cursor.toList_next
  have hcurrent : r.pass.current = r.current + 1 := by
    have hafter : r.cursor.after = c :: rest := hr
    show r.cursor.next.offset = r.cursor.offset + 1
    rw [Cursor.offset_next, hafter, List.length_cons]
    omega
  have hat : r.program.toList[r.current]? = some c := by
    rw [← List.head?_drop, ← h.remaining, hr]
    rfl
  have hnext := Position.ofOffset_succ hat
  rw [← h.position] at hnext
  by_cases hc : c = '\n'
  · rw [if_pos hc] at hnext ⊢
    refine ⟨htext, ?_⟩
    show (⟨((r.line + 1 : Nat) : Int), (r.pass.current : Int) - r.pass.current⟩ : Position)
      = Position.ofOffset r.program.toList r.pass.current
    rw [hcurrent, hnext, Int.sub_self]
    rfl
  · rw [if_neg hc] at hnext ⊢
    refine ⟨htext, ?_⟩
    show (⟨r.line, (r.pass.current : Int) - r.lineStart⟩ : Position)
      = Position.ofOffset r.program.toList r.pass.current
    rw [hcurrent, hnext]
    simp only [Position.mk.injEq, true_and]
    omega

theorem Placed.consume (h : Placed r) (n : Nat) : Placed (r.consume n) := by
  induction n generalizing r with
  | zero => exact h
  | succ n ih =>
    rw [TokenReader.consume]
    split
    · exact h
    · rename_i hr
      exact ih (h.step hr)

private theorem skip_of_nil {c : Cursor Char} (h : c.after = []) (n : Nat) : c.skip n = c := by
  have hnext : c.next = c := by
    unfold Cursor.next
    split
    · rfl
    · rename_i e
      rw [h] at e
      cases e
  induction n with
  | zero => rfl
  | succ n ih => rw [Cursor.skip, hnext, ih]

/-- Consuming moves the place, the line and the start of the line, and nothing else. -/
theorem consume_eq (r : TokenReader) (n : Nat) :
    r.consume n = { r with
      cursor := r.cursor.skip n, line := (r.consume n).line, lineStart := (r.consume n).lineStart } := by
  induction n generalizing r with
  | zero => rfl
  | succ n ih =>
    rcases hr : r.remaining with _ | ⟨c, rest⟩
    · have hafter : r.cursor.after = [] := hr
      have e : r.consume (n + 1) = r := by rw [consume, hr]
      rw [e, skip_of_nil hafter]
    · have e : r.consume (n + 1) = (if c = '\n' then r.pass.newline else r.pass).consume n := by rw [consume, hr]
      rw [e, ih, Cursor.skip]
      split <;> rfl

theorem current_consume {n : Nat} (h : n ≤ r.remaining.length) : (r.consume n).current = r.current + n := by
  rw [consume_eq]
  show (r.cursor.skip n).offset = r.cursor.offset + n
  rw [Cursor.offset_skip]
  exact congrArg (r.cursor.offset + ·) (Nat.min_eq_left h)

theorem Placed.begin (h : Placed r) : Placed r.begin := ⟨h.text, h.position⟩

/-! ### Moving over a segment -/

/-- The reader `r'` is the reader `r` behind a segment, which is the current lexeme. -/
structure Covers (r r' : TokenReader) (p : Located) : Prop where
  placed : Placed r'
  program : r'.program = r.program
  start : r'.start = p.start
  stop : r'.current = p.stop
  text : p.segment.text = (r.program.toList.take p.stop).drop p.start
  lexeme : r'.lexeme = String.ofList p.segment.text
  span : r'.span = Span.ofOffsets r.program.toList p.start p.stop
  tokens : r'.tokens = r.tokens
  errors : r'.errors = r.errors

theorem Placed.covers (h : Placed r) {g : Segment} (hg : g.text <+: r.remaining) :
    Covers r (r.begin.consume g.text.length) ⟨r.current, g⟩ := by
  -- all but the place, the line and the start of the line stays as it was when the lexeme began
  have heq : r.begin.consume g.text.length = _ := consume_eq r.begin g.text.length
  have hplaced : Placed (r.begin.consume g.text.length) := h.begin.consume _
  have hstop : (r.begin.consume g.text.length).current = (Located.mk r.current g).stop := current_consume hg.length_le
  have htext : g.text = (r.program.toList.take (Located.mk r.current g).stop).drop r.current := by
    rw [h.remaining] at hg
    exact Located.text_eq (p := ⟨r.current, g⟩) hg
  have hprogram : (r.begin.consume g.text.length).program = r.program := by rw [heq]; rfl
  have hstart : (r.begin.consume g.text.length).start = r.current := by rw [heq]; rfl
  have hbegin : Position.ofOffset r.program.toList r.current
      = ⟨(r.begin.consume g.text.length).startLine, (r.begin.consume g.text.length).startColumn⟩ := by
    rw [← h.position, heq]
    rfl
  refine ⟨hplaced, hprogram, hstart, hstop, htext, ?_, ?_, by rw [heq]; rfl, by rw [heq]; rfl⟩
  · have hcut : (r.program.toList.take (r.begin.consume g.text.length).current).drop r.current = g.text := by
      rw [hstop]
      exact htext.symm
    rw [TokenReader.lexeme, Cursor.behind_eq, hplaced.text, hprogram, hstart]
    exact congrArg String.ofList hcut
  · rw [Span.ofOffsets, hbegin, ← hstop, ← hprogram, ← hplaced.position]
    rfl

/-! ### Reading one segment -/

/-- The reader `r'` is the reader `r` after a segment, with what the segment stands for. -/
structure Adds (r r' : TokenReader) (p : Located) : Prop where
  program : r'.program = r.program
  start : r.current = p.start ∧ r'.start = p.start
  stop : r'.current = p.stop
  text : p.segment.text = (r.program.toList.take p.stop).drop p.start
  tokens : r'.tokens.toList = r.tokens.toList ++ (p.token? r.program.toList).toList
  errors : r'.errors.toList = r.errors.toList ++ (p.mistake? r.program).toList

theorem emit_eq {g : Segment} (hg : r.lexeme = String.ofList g.text)
    (hn : g.shape = .number → Decimal.read? g.text = some (Segment.numeralValue g.text)) :
    (r.emit g.shape).1 = .ok () ∧
      (r.emit g.shape).2 = { r with
        tokens := r.tokens ++ (g.token? r.span).toArray
        errors := r.errors ++ (g.cause?.map (Diagnostic.mk r.program r.span)).toArray } := by
  rcases g with ⟨shape, text⟩
  dsimp only at hg hn
  cases shape with
  | number =>
    simp [emit, Segment.token?, Segment.cause?, hn rfl, addToken, hg, span]
  | word => simp [emit, Segment.token?, Segment.cause?, Segment.wordKind_eq, addToken, hg, span]
  | _ => simp [emit, Segment.token?, Segment.cause?, addToken, addError, hg, span]

theorem readToken_eq {g : Segment} (hg : Segment.first? r.remaining = some g) :
    r.begin.readToken = (r.begin.consume g.text.length).emit g.shape := by
  have hb : r.begin.remaining = r.remaining := rfl
  rcases hr : r.remaining with _ | ⟨c, rest⟩
  · rw [hr] at hg
    cases hg
  · rw [hr, Segment.first?, Option.some.injEq] at hg
    have hlen : g.text.length = (Segment.extent c rest).2 + 1 := by
      rw [← hg, Segment.length_cons_take_extent]
    rw [readToken, hb, hr, hlen, ← hg]

/-- Reading the segment at the place adds what it stands for, and is never refused. -/
theorem Placed.readToken_spec (h : Placed r) {g : Segment} (hg : Segment.first? r.remaining = some g) :
    ∃ r', r.begin.readToken = (.ok (), r') ∧ Placed r' ∧ Adds r r' ⟨r.current, g⟩ := by
  have hc : Covers r (r.begin.consume g.text.length) ⟨r.current, g⟩ := h.covers (Segment.prefix_of_first? hg)
  have hn := Segment.read?_numeral (Segment.first?_eq_some_iff.1 hg)
  have he := emit_eq (g := g) hc.lexeme hn
  refine ⟨((r.begin.consume g.text.length).emit g.shape).2, ?_, ?_, ?_⟩
  · rw [readToken_eq hg, ← he.1]
  · rw [he.2]
    exact ⟨hc.placed.text, hc.placed.position⟩
  · rw [he.2]
    refine ⟨hc.program, ⟨rfl, hc.start⟩, hc.stop, hc.text, ?_, ?_⟩
    · simp [hc.tokens, hc.span, Located.token?]
    · simp [hc.errors, hc.program, hc.span, Located.mistake?]

end TokenReader

end LoxSyntax
