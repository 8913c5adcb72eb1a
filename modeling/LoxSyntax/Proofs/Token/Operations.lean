import LoxSyntax.Proofs.Token.Lookahead
import LoxSyntax.Token.Reader

/-!
# Reading a segment by operations

The segment at the place can also be read by the other operations of a reader.  They pass its first character, decide by
it what to do, and look no further than to the next character before they leave the rest to the operation for the class
of the segment.

* `consume_add`, `consume_succ`: consuming, step by step.
* `readToken_eq_dispatch`: both ways of reading a segment are the same.
-/

namespace LoxSyntax

namespace TokenReader

/-- Read the segment at the place with the other operations. -/
def dispatch (r : TokenReader) : Outcome Unit :=
  match r.advance with
  | (.error e, r) => (.error e, r)
  | (.ok c, r) =>
    if let some kind := Segment.single? c then (.ok (), r.addToken kind .null)
    else if let some (alone, suffixed) := Segment.equalSuffixed? c then
      let (matched, r) := r.accept (some '=')
      (.ok (), r.addToken (if matched then suffixed else alone) .null)
    else if let some kind := Segment.doubled? c then
      let (matched, r) := r.accept (some c)
      (.ok (), if matched then r.addToken kind .null else r.addError .unexpectedCharacter)
    else if c = '/' then
      let (line, r) := r.accept (some '/')
      if line then (.ok (), r.lineComment)
      else
        let (block, r) := r.accept (some '*')
        (.ok (), if block then r.blockComment else r.addToken .slash .null)
    else if c = '\n' then (.ok (), r.newline)
    else if Segment.isBlank c then (.ok (), r)
    else if Segment.isQuote c then r.readString (some c)
    else if Segment.isDigit c then r.readNumber
    else if Segment.isAlpha c then r.readWord
    else (.ok (), r.addError .unexpectedCharacter)

variable {r : TokenReader} {c : Char} {rest : List Char}

theorem consume_add (r : TokenReader) (m n : Nat) : r.consume (m + n) = (r.consume m).consume n := by
  induction m generalizing r with
  | zero => rw [Nat.zero_add, consume]
  | succ m ih =>
    rw [Nat.succ_add, consume, consume]
    split
    · rename_i h
      cases n with
      | zero => rfl
      | succ n => rw [consume, h]
    · exact ih _

theorem consume_succ (h : r.remaining = c :: rest) (hc : c ≠ '\n') (n : Nat) :
    r.consume (n + 1) = r.pass.consume n := by
  rw [consume, h]
  dsimp only
  rw [if_neg hc]

theorem consume_one (h : r.remaining = c :: rest) (hc : c ≠ '\n') : r.consume 1 = r.pass := consume_succ h hc 0

theorem remaining_pass_eq (h : r.remaining = c :: rest) : r.pass.remaining = rest := by
  rw [remaining_pass, h, List.drop_one, List.tail_cons]

theorem accept_of_head (h : rest.head? = some c) (hr : r.remaining = rest) : r.accept (some c) = (true, r.pass) := by
  obtain ⟨tail, rfl⟩ := List.head?_eq_some_iff.1 h
  rw [accept, hr]
  exact if_pos rfl

theorem accept_of_not_head (h : rest.head? ≠ some c) (hr : r.remaining = rest) : r.accept (some c) = (false, r) := by
  cases rest with
  | nil => rw [accept, hr]
  | cons d rest =>
    rw [accept, hr]
    exact if_neg fun e => h (by rw [List.head?_cons, e])

/-- A closed string literal ends with its quote, and no line starts behind that. -/
theorem consume_extent_body {q : Char} (hq : q ≠ '\n') (hr : r.remaining = rest)
    (hclosed : (Segment.body (some q) rest).closed = true) :
    r.consume (Segment.body (some q) rest).extent = (r.consume (Segment.body (some q) rest).length).pass := by
  obtain ⟨w, tail, hrest, hw, -⟩ := (Segment.body_cut q rest).1 hclosed
  have hquote : (r.consume (Segment.body (some q) rest).length).remaining = q :: tail := by
    rw [after_consume, hr, ← hw]
    conv => lhs; rw [hrest]
    exact List.drop_left
  rw [Segment.Body.extent, hclosed, consume_add]
  exact consume_one hquote hq

private theorem readToken_of_remaining (hr : r.remaining = c :: rest) :
    r.readToken = (r.consume ((Segment.extent c rest).2 + 1)).emit (Segment.extent c rest).1 := by
  rw [readToken, hr]

/-- A character that may be followed by a second one is read by asking for that one. -/
private theorem consume_suffix {d : Char} {read : Shape × Nat} {a b : Shape} (hr : r.remaining = c :: rest)
    (hc : c ≠ '\n') (hd : d ≠ '\n') (hread : read = if rest.head? = some d then (a, 1) else (b, 0)) :
    (r.consume (read.2 + 1)).emit read.1 =
      let (matched, r) := r.pass.accept (some d)
      r.emit (if matched then a else b) := by
  have hpass : r.pass.remaining = rest := remaining_pass_eq hr
  rw [hread]
  by_cases hnext : rest.head? = some d
  · obtain ⟨tail, rfl⟩ := List.head?_eq_some_iff.1 hnext
    rw [if_pos hnext, accept_of_head hnext hpass]
    show (r.consume (1 + 1)).emit a = _
    rw [consume_succ hr hc, consume_one hpass hd]
    rfl
  · rw [if_neg hnext, accept_of_not_head hnext hpass]
    show (r.consume 1).emit b = _
    rw [consume_one hr hc]
    rfl

/-- A slash begins a comment, if it is followed by another slash or by a star, or is an operator. -/
theorem readToken_slash (hr : r.remaining = '/' :: rest) :
    r.readToken =
      let (line, r) := r.pass.accept (some '/')
      if line then (.ok (), r.lineComment)
      else
        let (block, r) := r.accept (some '*')
        (.ok (), if block then r.blockComment else r.addToken .slash .null) := by
  have hpass : r.pass.remaining = rest := remaining_pass_eq hr
  have hc : '/' ≠ '\n' := by decide
  rw [readToken_of_remaining hr]
  by_cases hline : rest.head? = some '/'
  · obtain ⟨tail, rfl⟩ := List.head?_eq_some_iff.1 hline
    have hextent : Segment.extent '/' ('/' :: tail) = (.comment, Segment.lineCommentLength tail + 1) := rfl
    rw [hextent, accept_of_head hline hpass, consume_succ hr hc, consume_succ hpass hc, ← remaining_pass_eq hpass]
    rfl
  · rw [accept_of_not_head hline hpass]
    by_cases hblock : rest.head? = some '*'
    · obtain ⟨tail, rfl⟩ := List.head?_eq_some_iff.1 hblock
      have hextent : Segment.extent '/' ('*' :: tail) = (.comment, Segment.blockCommentLength tail + 1) := rfl
      dsimp only
      rw [hextent, accept_of_head hblock hpass, consume_succ hr hc, consume_succ hpass (by decide),
        ← remaining_pass_eq hpass]
      rfl
    · dsimp only
      rw [Segment.extent_slash_alone hline hblock, accept_of_not_head hblock hpass, consume_one hr hc]
      rfl

/-- A quote begins a string literal, which is read up to the next such quote. -/
theorem consume_string (hr : r.remaining = c :: rest) (hc : c ≠ '\n') :
    (r.consume ((Segment.body (some c) rest).extent + 1)).emit
        (if (Segment.body (some c) rest).closed then .string (Segment.body (some c) rest).value else .unterminated)
      = r.pass.readString (some c) := by
  have hpass : r.pass.remaining = rest := remaining_pass_eq hr
  rw [readString, hpass, consume_succ hr hc]
  cases hclosed : (Segment.body (some c) rest).closed with
  | true =>
    rw [consume_extent_body hc hpass hclosed]
    rfl
  | false =>
    rw [Segment.Body.extent, hclosed]
    rfl

/-- To read the segment at the place is to pass its first character and do what that asks for. -/
theorem readToken_eq_dispatch (r : TokenReader) : r.readToken = r.dispatch := by
  rcases hr : r.remaining with _ | ⟨c, rest⟩
  · rw [readToken, dispatch, advance, hr]
  · have hadvance : r.advance = (.ok c, r.pass) := by rw [advance, hr]
    have hpass : r.pass.remaining = rest := remaining_pass_eq hr
    by_cases hslash : c = '/'
    · subst hslash
      rw [dispatch, hadvance, readToken_slash hr]
      rfl
    rw [dispatch, hadvance, readToken_of_remaining hr]
    dsimp only
    -- the classes of `c` in the order in which they are tried; only a line feed begins a line
    cases hsingle : Segment.single? c with
    | some kind =>
      have hc : c ≠ '\n' := by
        rintro rfl
        cases hsingle
      rw [Segment.extent_single hsingle, consume_one hr hc]
      rfl
    | none =>
    cases hsuffixed : Segment.equalSuffixed? c with
    | some kinds =>
      have hc : c ≠ '\n' := by
        rintro rfl
        cases hsuffixed
      rw [consume_suffix hr hc (by decide) (Segment.extent_equalSuffixed hsuffixed rest)]
      rcases r.pass.accept (some '=') with ⟨_ | _, r'⟩ <;> rfl
    | none =>
    cases hdoubled : Segment.doubled? c with
    | some kind =>
      have hc : c ≠ '\n' := by
        rintro rfl
        cases hdoubled
      rw [consume_suffix hr hc hc (Segment.extent_doubled hdoubled rest)]
      rcases r.pass.accept (some c) with ⟨_ | _, r'⟩ <;> rfl
    | none =>
    unfold Segment.extent
    rw [hsingle, hsuffixed, hdoubled, if_neg hslash, if_neg hslash]
    by_cases hline : c = '\n'
    · subst hline
      rw [if_pos (by decide), if_pos rfl, consume, hr]
      rfl
    rw [if_neg hline]
    by_cases hblank : Segment.isBlank c
    · rw [if_pos hblank, if_pos hblank, consume_one hr hline]
      rfl
    rw [if_neg hblank, if_neg hblank]
    by_cases hquote : Segment.isQuote c
    · rw [if_pos hquote, if_pos hquote]
      exact consume_string hr hline
    rw [if_neg hquote, if_neg hquote]
    by_cases hdigit : Segment.isDigit c
    · rw [if_pos hdigit, if_pos hdigit, readNumber, hpass, consume_succ hr hline]
    rw [if_neg hdigit, if_neg hdigit]
    by_cases halpha : Segment.isAlpha c
    · rw [if_pos halpha, if_pos halpha, readWord, hpass, consume_succ hr hline]
    rw [if_neg halpha, if_neg halpha, consume_one hr hline]
    rfl

end TokenReader

end LoxSyntax
