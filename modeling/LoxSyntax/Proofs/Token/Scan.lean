import LoxSyntax.Proofs.Token.Reading

/-!
# Reading all segments

Reading a program takes up one segment after the other until nothing is left.  The segments are those of the text, they
lie end to end from the start of the program to its end, and each is the longest lexeme of what it begins.

* `Placed.reads_sequence`: the loop takes up the segments of what remains.
* `lexed_tokens`, `lexed_errors`: the tokens and the mistakes of a program are what its segments stand for.
* `readAll_segments`: what the segments of a program are.
-/

namespace LoxSyntax

/-- Segments that lie end to end between two offsets, none of them empty. -/
def Tiles (start : Nat) : List Located → (stop : Nat) → Prop
  | [], stop => start = stop
  | p :: rest, stop => p.start = start ∧ p.start < p.stop ∧ Tiles p.stop rest stop

namespace Located

/-- The segments of a program. -/
def ofProgram (program : String) : List Located := sequence 0 (Segment.segments program.toList)

theorem sequence_append (start : Nat) (a b : List Segment) :
    sequence start (a ++ b) = sequence start a ++ sequence (start + (a.flatMap Segment.text).length) b := by
  induction a generalizing start with
  | nil => rfl
  | cons g a ih =>
    rw [List.cons_append, sequence, sequence, ih, List.flatMap_cons, List.length_append, Nat.add_assoc,
      List.cons_append]

theorem length_sequence (start : Nat) (gs : List Segment) : (sequence start gs).length = gs.length := by
  induction gs generalizing start with
  | nil => rfl
  | cons g gs ih => exact congrArg (· + 1) (ih _)

theorem segment_mem_of_mem_sequence {start : Nat} {gs : List Segment} {p : Located} (h : p ∈ sequence start gs) :
    p.segment ∈ gs := by
  induction gs generalizing start with
  | nil => cases h
  | cons g gs ih =>
    rcases List.mem_cons.1 h with rfl | h
    · exact List.mem_cons_self
    · exact List.mem_cons_of_mem g (ih h)

/-- The segments of a text, from the offset `start` of a text that they are in. -/
theorem tiles_sequence (start : Nat) (t : List Char) :
    Tiles start (sequence start (Segment.segments t)) (start + t.length) := by
  fun_induction Segment.segments t generalizing start with
  | case1 => rfl
  | case2 c rest ih =>
    have hlen := Segment.length_cons_take_extent c rest
    have hle := Segment.extent_le c rest
    have hstop : start + (Segment.extent c rest).2 + 1 + (rest.drop (Segment.extent c rest).2).length
        = start + (c :: rest).length := by
      rw [List.length_drop, List.length_cons]
      omega
    refine ⟨rfl, by simp [stop], ?_⟩
    rw [← hstop]
    have := ih (start + (Segment.extent c rest).2 + 1)
    rwa [stop, hlen, ← Nat.add_assoc]

/-- Every segment is the longest lexeme of what it begins, or what is in error there. -/
theorem first_of_mem_sequence {t u : List Char} {start : Nat} {p : Located} (hu : t.drop start = u)
    (h : p ∈ sequence start (Segment.segments u)) : Segment.First (t.drop p.start) p.segment := by
  fun_induction Segment.segments u generalizing start with
  | case1 => cases h
  | case2 c rest ih =>
    rcases List.mem_cons.1 h with rfl | h
    · rw [hu]
      exact Segment.first_extent c rest
    · refine ih ?_ h
      rw [← List.drop_drop, hu, Segment.length_cons_take_extent, List.drop_succ_cons]

theorem tiles_ofProgram (program : String) : Tiles 0 (ofProgram program) program.toList.length := by
  have := tiles_sequence 0 program.toList
  rwa [Nat.zero_add] at this

theorem first_of_mem_ofProgram {program : String} {p : Located} (h : p ∈ ofProgram program) :
    Segment.First (program.toList.drop p.start) p.segment :=
  first_of_mem_sequence List.drop_zero h

end Located

namespace TokenReader

variable {r r' : TokenReader} {ps : List Located}

/-- The loop takes the reader `r` over segments to the reader `r'`. -/
inductive Reads : (r : TokenReader) → List Located → (r' : TokenReader) → Prop
  | done {r : TokenReader} (h : r.atEnd = true) : Reads r [] r
  | next {r r' r'' : TokenReader} {p : Located} {ps : List Located} (h : r.atEnd = false)
      (hr : r.begin.readToken = (.ok (), r')) (hp : Adds r r' p) (tail : Reads r' ps r'') : Reads r (p :: ps) r''

theorem Reads.readSegments (h : Reads r ps r') : r.readSegments = (.ok (), r') := by
  induction h with
  | done h => rw [TokenReader.readSegments, dif_pos h]
  | next h hr _ _ ih =>
    rw [TokenReader.readSegments, dif_neg (by simp [h])]
    split
    · rename_i hr'
      rw [hr] at hr'
      cases hr'
    · rename_i hr'
      rw [hr] at hr'
      cases hr'
      exact ih

theorem Reads.program (h : Reads r ps r') : r'.program = r.program := by
  induction h with
  | done => rfl
  | next _ _ hp _ ih => rw [ih, hp.program]

theorem Reads.atEnd (h : Reads r ps r') : r'.atEnd = true := by
  induction h with
  | done h => exact h
  | next _ _ _ _ ih => exact ih

theorem Reads.tokens (h : Reads r ps r') :
    r'.tokens.toList = r.tokens.toList ++ ps.filterMap (·.token? r.program.toList) := by
  induction h with
  | done => simp
  | @next r r' r'' p ps _ _ hp _ ih =>
    rw [ih, hp.tokens, hp.program, List.append_assoc]
    cases h : p.token? r.program.toList <;> simp [h]

theorem Reads.errors (h : Reads r ps r') :
    r'.errors.toList = r.errors.toList ++ ps.filterMap (·.mistake? r.program) := by
  induction h with
  | done => simp
  | @next r r' r'' p ps _ _ hp _ ih =>
    rw [ih, hp.errors, hp.program, List.append_assoc]
    cases h : p.mistake? r.program <;> simp [h]

private theorem Placed.reads_segments {t : List Char} (h : Placed r) (ht : r.remaining = t) :
    ∃ r', Reads r (Located.sequence r.current (Segment.segments t)) r' ∧ Placed r' := by
  fun_induction Segment.segments t generalizing r with
  | case1 =>
    have hend : r.atEnd = true := List.isEmpty_iff.2 ht
    exact ⟨r, .done hend, h⟩
  | case2 c rest ih =>
    have hfirst : Segment.first? r.remaining
        = some ⟨(Segment.extent c rest).1, c :: rest.take (Segment.extent c rest).2⟩ := by rw [ht, Segment.first?]
    have hend : r.atEnd = false := by
      rw [atEnd, Cursor.atEnd, show r.cursor.after = c :: rest from ht, List.isEmpty_cons]
    obtain ⟨r', hread, hplaced, hadds⟩ := h.readToken_spec hfirst
    have hrest : r'.remaining = rest.drop (Segment.extent c rest).2 := by
      have hb : r.begin.remaining = c :: rest := ht
      rw [← after_readToken hb, hread]
    obtain ⟨r'', htail, hplaced'⟩ := ih hplaced hrest
    rw [hadds.stop] at htail
    exact ⟨r'', .next hend hread hadds htail, hplaced'⟩

/-- The loop takes up the segments of what remains. -/
theorem Placed.reads_sequence (h : Placed r) :
    ∃ r', Reads r (Located.sequence r.current (Segment.segments r.remaining)) r' ∧ Placed r' :=
  h.reads_segments rfl

/-- A reader in its program that has read everything is at its end. -/
theorem Placed.current_of_atEnd (h : Placed r) (hr : r.atEnd = true) : r.current = r.program.toList.length := by
  have hnil : r.cursor.after = [] := List.isEmpty_iff.1 hr
  rw [← h.text, Cursor.length_toList, Cursor.size, hnil]
  rfl

/-- Reading a program takes up its segments, and then the token is added that ends the input. -/
theorem readAll_spec (program : String) :
    ∃ r, Reads (ofProgram program) (Located.ofProgram program) r ∧ Placed r ∧
      (ofProgram program).readAll
        = (.ok (r.begin.addToken .endOfInput .null).tokens.size, r.begin.addToken .endOfInput .null) := by
  obtain ⟨r, hr, hplaced⟩ := (placed_ofProgram program).reads_sequence
  refine ⟨r, hr, hplaced, ?_⟩
  rw [readAll, hr.readSegments]

/-- Reading a program takes up stretches of it that lie end to end, and each of them is the longest lexeme of what it
begins, or what is in error there. -/
theorem readAll_segments (program : String) :
    ∃ ps r, Reads (ofProgram program) ps r ∧
      (ofProgram program).readAll
        = (.ok (r.begin.addToken .endOfInput .null).tokens.size, r.begin.addToken .endOfInput .null) ∧
      Tiles 0 ps program.toList.length ∧
      ∀ p ∈ ps, Segment.First (program.toList.drop p.start) p.segment := by
  obtain ⟨r, hr, -, hall⟩ := readAll_spec program
  exact ⟨_, r, hr, hall, Located.tiles_ofProgram program, fun p hp => Located.first_of_mem_ofProgram hp⟩

end TokenReader

/-! ### The tokens and the mistakes of a program -/

/-- The token that ends the input, at the end of a program. -/
def Token.ending (t : List Char) : Token :=
  ⟨.endOfInput, "", .null, (Position.ofOffset t t.length).line, Span.ofOffsets t t.length t.length⟩

theorem lexed_tokens (program : String) :
    (Lexed.ofProgram program).tokens
      = (Located.ofProgram program).filterMap (·.token? program.toList) ++ [Token.ending program.toList] := by
  obtain ⟨r, hr, hplaced, hall⟩ := TokenReader.readAll_spec program
  have hstop : r.current = program.toList.length := by
    rw [hplaced.current_of_atEnd hr.atEnd, hr.program]
    rfl
  -- the lexeme that begins at the end is empty
  have hlexeme : r.begin.lexeme = "" := by
    show String.ofList (r.cursor.behind r.cursor.offset) = ""
    rw [Cursor.behind, Nat.sub_self]
    rfl
  have hspan : r.begin.span = Span.ofOffsets program.toList program.toList.length program.toList.length := by
    have hposition : Position.ofOffset r.program.toList r.current
        = Position.ofOffset program.toList program.toList.length := by rw [hr.program, hstop]; rfl
    rw [Span.ofOffsets, ← hposition, ← hplaced.position]
    rfl
  have hending : (r.begin.addToken .endOfInput .null).tokens = r.tokens.push (Token.ending program.toList) := by
    show r.tokens.push ⟨.endOfInput, r.begin.lexeme, .null, r.begin.span.stop.line, r.begin.span⟩ = _
    rw [hlexeme, hspan]
    rfl
  rw [Lexed.ofProgram, hall]
  show (r.begin.addToken .endOfInput .null).tokens.toList = _
  rw [hending, Array.toList_push, hr.tokens]
  rfl

theorem lexed_errors (program : String) :
    (Lexed.ofProgram program).errors = (Located.ofProgram program).filterMap (·.mistake? program) := by
  obtain ⟨r, hr, -, hall⟩ := TokenReader.readAll_spec program
  rw [Lexed.ofProgram, hall]
  exact hr.errors

end LoxSyntax
