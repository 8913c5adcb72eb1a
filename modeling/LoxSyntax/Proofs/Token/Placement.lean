import LoxSyntax.Proofs.Expr.Parsing
import LoxSyntax.Proofs.Token.Scan

/-!
# Where tokens and mistakes are

Every token and every mistake of a program comes from a stretch of the program.  Its span runs between the positions
where the stretch starts and stops, and the stretches lie one after the other.  A mistake in the grammar is where its
token is.

* `First.token?_cases`: a token is a string literal, or it stands on one line.
* `exact_of_finding?`: what a segment stands for is where the segment is.
* `findings_pairwise`: no two stretches overlap.
* `mem_errors_cases`: a mistake in a program is one in its tokens, or lies at one of them.
* `lexed_placement`: the stretches of all tokens and mistakes of a program.
-/

namespace LoxSyntax

/-- A token or a mistake, and the offsets that it lies between. -/
structure Finding where
  start : Nat
  stop : Nat
  content : Token ⊕ Diagnostic

/-- A token is at the stretch between two offsets of a text. -/
structure Token.LiesAt (t : List Char) (start stop : Nat) (token : Token) : Prop where
  span : token.span = Span.ofOffsets t start stop
  lexeme : token.lexeme = String.ofList ((t.take stop).drop start)
  line : token.line = token.span.stop.line
  lt_of_not_isEnd (h : token.isEnd = false) : start < stop
  eq_of_isEnd (h : token.isEnd = true) : start = t.length ∧ stop = t.length

/-- A mistake in the tokens is at the stretch between two offsets of a program: at one character, or from a quote to
the end. -/
structure Diagnostic.LiesAt (program : String) (start stop : Nat) (d : Diagnostic) : Prop where
  source : d.program = program
  span : d.span = Span.ofOffsets program.toList start stop
  line : d.line = d.span.stop.line
  cause : (d.cause = .unexpectedCharacter ∧ stop = start + 1) ∨
    (d.cause = .unterminatedString ∧ (∃ q ∈ Segment.quotes, program.toList[start]? = some q) ∧
      stop = program.toList.length)

namespace Finding

/-- What is found is at its stretch of a program. -/
def Exact (program : String) (f : Finding) : Prop :=
  match f.content with
  | .inl token => token.LiesAt program.toList f.start f.stop
  | .inr d => d.LiesAt program f.start f.stop

/-- The token that is found. -/
def token? (f : Finding) : Option Token := f.content.getLeft?

/-- The mistake that is found. -/
def mistake? (f : Finding) : Option Diagnostic := f.content.getRight?

theorem Exact.liesAt {program : String} {f : Finding} (h : f.Exact program) {token : Token}
    (ht : f.token? = some token) : token.LiesAt program.toList f.start f.stop := by
  have hcontent : f.content = .inl token := Sum.getLeft?_eq_some_iff.1 ht
  rwa [Exact, hcontent] at h

end Finding

namespace Segment

/-- A word is an identifier or a reserved word. -/
theorem wordKind_ne {k : Kind} (h : k ∉ Kind.identifier :: .or :: Kind.words) (word : String) :
    wordKind word ≠ k := by
  rw [← wordKind_eq]
  rintro rfl
  apply h
  unfold TokenReader.wordKind Kind.reserved?
  split
  · exact List.mem_cons_of_mem _ List.mem_cons_self
  · cases hf : Kind.words.find? (·.symbol == word) with
    | none => exact List.mem_cons_self
    | some k => exact List.mem_cons_of_mem _ (List.mem_cons_of_mem _ (List.mem_of_find?_eq_some hf))

/-- A token is a string literal, or it has another kind and stands on one line. -/
theorem First.token?_cases {t : List Char} {g : Segment} (h : First t g) {span : Span} {token : Token}
    (ht : g.token? span = some token) :
    (token.kind = .string ∧ ∃ q ∈ quotes, ∃ w v, g.text = q :: (w ++ [q]) ∧ Enclosed q w v ∧
      token.literal = .text (String.ofList v)) ∨
    (token.kind ≠ .string ∧ token.kind ≠ .endOfInput ∧ '\n' ∉ g.text) := by
  cases h with
  | longest h =>
    obtain ⟨rest, -, hw⟩ := h
    cases hw with
    | @operator k hk =>
      cases ht
      have hall : ∀ k ∈ Kind.operators, k ≠ .string ∧ k ≠ .endOfInput ∧ '\n' ∉ k.symbol.toList := by decide
      exact Or.inr (hall k hk)
    | whole hd =>
      cases ht
      refine Or.inr ⟨nofun, nofun, fun hn => ?_⟩
      exact absurd (hd _ hn) (by decide)
    | decimal hd hf =>
      cases ht
      refine Or.inr ⟨nofun, nofun, fun hn => ?_⟩
      rcases List.mem_append.1 hn with hn | hn
      · exact absurd (hd _ hn) (by decide)
      rcases List.mem_cons.1 hn with hn | hn
      · exact absurd hn (by decide)
      · exact absurd (hf _ hn) (by decide)
    | word hc hw =>
      cases ht
      refine Or.inr ⟨wordKind_ne (by decide) _, wordKind_ne (by decide) _, fun hn => ?_⟩
      rcases List.mem_cons.1 hn with rfl | hn
      · exact absurd hc (by decide)
      · exact absurd (hw _ hn) (by decide)
    | @string q w v hq hv =>
      cases ht
      exact Or.inl ⟨rfl, q, hq, w, v, rfl, hv, rfl⟩
    | _ => cases ht
  | unterminated => cases ht
  | unexpected => cases ht

theorem First.isEnd_eq_false {t : List Char} {g : Segment} (h : First t g) {span : Span} {token : Token}
    (ht : g.token? span = some token) : token.isEnd = false := by
  have hkind : token.kind ≠ .endOfInput := by
    rcases h.token?_cases ht with ⟨hk, -⟩ | ⟨-, hk, -⟩
    · rw [hk]
      exact nofun
    · exact hk
  simpa [Token.isEnd] using hkind

theorem token?_fields {g : Segment} {span : Span} {token : Token} (h : g.token? span = some token) :
    token.span = span ∧ token.lexeme = String.ofList g.text ∧ token.line = span.stop.line := by
  unfold token? at h
  dsimp only at h
  split at h
  case h_5 => cases h
  all_goals
    cases h
    exact ⟨rfl, rfl, rfl⟩

theorem cause?_eq_some_iff {g : Segment} {cause : Cause} :
    g.cause? = some cause ↔ (g.shape = .unexpected ∧ cause = .unexpectedCharacter) ∨
      (g.shape = .unterminated ∧ cause = .unterminatedString) := by
  rcases g with ⟨shape, text⟩
  cases shape <;> simp [cause?, eq_comm]

/-- No segment is both a token and a mistake. -/
theorem cause?_of_token? {g : Segment} {span : Span} {token : Token} (h : g.token? span = some token) :
    g.cause? = none := by
  rcases g with ⟨shape, text⟩
  cases shape with
  | unexpected => cases h
  | unterminated => cases h
  | _ => rfl

theorem First.of_unexpected {t : List Char} {g : Segment} (h : First t g) (hg : g.shape = .unexpected) :
    g.text.length = 1 := by
  cases h with
  | longest h =>
    obtain ⟨rest, -, hw⟩ := h
    dsimp only at hg
    subst hg
    cases hw
  | unterminated => cases hg
  | unexpected => rfl

theorem First.of_unterminated {t : List Char} {g : Segment} (h : First t g) (hg : g.shape = .unterminated) :
    g.text = t ∧ ∃ q ∈ quotes, t.head? = some q := by
  cases h with
  | longest h =>
    obtain ⟨rest, -, hw⟩ := h
    dsimp only at hg
    subst hg
    cases hw
  | unterminated hq => exact ⟨rfl, _, hq, rfl⟩
  | unexpected => cases hg

end Segment

namespace Located

/-- What a segment of a program stands for, if it stands for anything. -/
def finding? (program : String) (p : Located) : Option Finding :=
  match p.token? program.toList, p.mistake? program with
  | some token, _ => some ⟨p.start, p.stop, .inl token⟩
  | none, some d => some ⟨p.start, p.stop, .inr d⟩
  | none, none => none

theorem shape_of_mistake? {program : String} {p : Located} {d : Diagnostic} (h : p.mistake? program = some d) :
    (p.segment.shape = .unexpected ∧ d.cause = .unexpectedCharacter) ∨
      (p.segment.shape = .unterminated ∧ d.cause = .unterminatedString) := by
  obtain ⟨cause, hc, rfl⟩ := Option.map_eq_some_iff.1 h
  exact Segment.cause?_eq_some_iff.1 hc

theorem liesAt_of_mistake? {program : String} {p : Located} {d : Diagnostic}
    (h : Segment.First (program.toList.drop p.start) p.segment)
    (hd : p.mistake? program = some d) : d.LiesAt program p.start p.stop := by
  obtain ⟨cause, hc, rfl⟩ := Option.map_eq_some_iff.1 hd
  rcases Segment.cause?_eq_some_iff.1 hc with ⟨hs, rfl⟩ | ⟨hs, rfl⟩
  · refine ⟨rfl, rfl, rfl, Or.inl ⟨rfl, ?_⟩⟩
    rw [stop, h.of_unexpected hs]
  · obtain ⟨htext, q, hq, hhead⟩ := h.of_unterminated hs
    rw [List.head?_drop] at hhead
    have hstart : p.start < program.toList.length := (List.getElem?_eq_some_iff.1 hhead).1
    refine ⟨rfl, rfl, rfl, Or.inr ⟨rfl, ⟨q, hq, hhead⟩, ?_⟩⟩
    rw [stop, htext, List.length_drop]
    omega

private theorem liesAt_of_token? {t : List Char} {p : Located} {token : Token}
    (h : Segment.First (t.drop p.start) p.segment) (hlt : p.start < p.stop)
    (ht : p.token? t = some token) : token.LiesAt t p.start p.stop := by
  obtain ⟨hspan, hlexeme, hline⟩ := Segment.token?_fields ht
  have hend := h.isEnd_eq_false ht
  refine ⟨hspan, ?_, ?_, fun _ => hlt, ?_⟩
  · rw [hlexeme, text_eq (Segment.prefix_of_first? (Segment.first?_eq_some_iff.2 h))]
  · rw [hline, hspan]
  · intro he
    rw [hend] at he
    cases he

theorem stretch_of_finding? {program : String} {p : Located} {f : Finding} (h : p.finding? program = some f) :
    f.start = p.start ∧ f.stop = p.stop := by
  unfold finding? at h
  split at h
  · cases h
    exact ⟨rfl, rfl⟩
  · cases h
    exact ⟨rfl, rfl⟩
  · cases h

theorem exact_of_finding? {program : String} {p : Located} {f : Finding}
    (h : Segment.First (program.toList.drop p.start) p.segment) (hlt : p.start < p.stop)
    (hf : p.finding? program = some f) : f.Exact program := by
  unfold finding? at hf
  split at hf
  · rename_i ht
    cases hf
    exact liesAt_of_token? h hlt ht
  · rename_i hd
    cases hf
    exact liesAt_of_mistake? h hd
  · cases hf

theorem token?_finding? (program : String) (p : Located) :
    (p.finding? program).bind Finding.token? = p.token? program.toList := by
  unfold finding?
  split
  · rename_i ht
    exact ht.symm
  · rename_i ht hd
    exact ht.symm
  · rename_i ht hd
    exact ht.symm

theorem mistake?_finding? (program : String) (p : Located) :
    (p.finding? program).bind Finding.mistake? = p.mistake? program := by
  unfold finding?
  split
  · rename_i token d ht
    rw [mistake?, Segment.cause?_of_token? ht]
    rfl
  · rename_i hd
    exact hd.symm
  · rename_i hd
    exact hd.symm

end Located

/-! ### Stretches one after the other -/

/-- The stretches between two offsets lie between them. -/
theorem Tiles.bounds {start stop : Nat} {ps : List Located} (h : Tiles start ps stop) :
    start ≤ stop ∧ ∀ p ∈ ps, start ≤ p.start ∧ p.start < p.stop ∧ p.stop ≤ stop := by
  induction ps generalizing start with
  | nil =>
    cases h
    exact ⟨Nat.le_refl _, by simp⟩
  | cons p ps ih =>
    obtain ⟨hstart, hlt, htail⟩ := h
    obtain ⟨hle, hrest⟩ := ih htail
    refine ⟨by omega, ?_⟩
    intro p' hp'
    rcases List.mem_cons.1 hp' with rfl | hp'
    · omega
    · have := hrest p' hp'
      omega

/-- Stretches that lie end to end do not overlap. -/
theorem Tiles.pairwise {start stop : Nat} {ps : List Located} (h : Tiles start ps stop) :
    ps.Pairwise fun p p' => p.stop ≤ p'.start := by
  induction ps generalizing start with
  | nil => exact .nil
  | cons p ps ih =>
    obtain ⟨-, -, htail⟩ := h
    exact .cons (fun p' hp' => (htail.bounds.2 p' hp').1) (ih htail)

/-- What is found in a program: what its segments stand for, and the end of the input. -/
def Finding.ofProgram (program : String) : List Finding :=
  (Located.ofProgram program).filterMap (Located.finding? program)
    ++ [⟨program.toList.length, program.toList.length, .inl (Token.ending program.toList)⟩]

theorem findings_token? (program : String) :
    (Finding.ofProgram program).filterMap Finding.token? = (Lexed.ofProgram program).tokens := by
  rw [lexed_tokens, Finding.ofProgram, List.filterMap_append, List.filterMap_filterMap]
  congr 1
  exact congrArg (List.filterMap · _) (funext (Located.token?_finding? program))

theorem findings_mistake? (program : String) :
    (Finding.ofProgram program).filterMap Finding.mistake? = (Lexed.ofProgram program).errors := by
  have hend (f : Finding) (h : f.content.isLeft = true) : [f].filterMap Finding.mistake? = [] := by
    cases hf : f.content with
    | inl token => simp [Finding.mistake?, hf]
    | inr d =>
      rw [hf] at h
      cases h
  rw [lexed_errors, Finding.ofProgram, List.filterMap_append, List.filterMap_filterMap, hend _ rfl, List.append_nil]
  exact congrArg (List.filterMap · _) (funext (Located.mistake?_finding? program))

theorem Token.liesAt_ending (t : List Char) : (Token.ending t).LiesAt t t.length t.length := by
  refine ⟨rfl, ?_, rfl, nofun, fun _ => ⟨rfl, rfl⟩⟩
  rw [List.take_length, List.drop_length]
  rfl

theorem findings_exact {program : String} {f : Finding} (h : f ∈ Finding.ofProgram program) :
    f.start ≤ f.stop ∧ f.stop ≤ program.toList.length ∧ f.Exact program := by
  rcases List.mem_append.1 h with h | h
  · obtain ⟨p, hp, hf⟩ := List.mem_filterMap.1 h
    obtain ⟨hstart, hstop⟩ := Located.stretch_of_finding? hf
    obtain ⟨-, hlt, hle⟩ := (Located.tiles_ofProgram program).bounds.2 p hp
    refine ⟨by omega, by omega, ?_⟩
    exact Located.exact_of_finding? (Located.first_of_mem_ofProgram hp) hlt hf
  · rw [List.mem_singleton.1 h]
    exact ⟨Nat.le_refl _, Nat.le_refl _, Token.liesAt_ending program.toList⟩

theorem exists_finding {program : String} {token : Token} (h : token ∈ (Lexed.ofProgram program).tokens) :
    ∃ f ∈ Finding.ofProgram program, f.token? = some token := by
  rw [← findings_token?] at h
  exact List.mem_filterMap.1 h

theorem findings_pairwise (program : String) :
    (Finding.ofProgram program).Pairwise fun f f' => f.stop ≤ f'.start := by
  have htiles := Located.tiles_ofProgram program
  refine List.pairwise_append.2 ⟨?_, List.pairwise_singleton _ _, ?_⟩
  · refine List.pairwise_filterMap.2 (htiles.pairwise.imp ?_)
    intro p p' hle f hf f' hf'
    rw [(Located.stretch_of_finding? hf).2, (Located.stretch_of_finding? hf').1]
    exact hle
  · -- the end of the input is behind all segments
    intro f hf f' hf'
    obtain ⟨p, hp, hf⟩ := List.mem_filterMap.1 hf
    rw [List.mem_singleton.1 hf', (Located.stretch_of_finding? hf).2]
    exact (htiles.bounds.2 p hp).2.2

theorem exists_liesAt_of_mem_tokens {program : String} {token : Token}
    (h : token ∈ (Lexed.ofProgram program).tokens) :
    ∃ start stop, start ≤ stop ∧ stop ≤ program.toList.length ∧ token.LiesAt program.toList start stop := by
  obtain ⟨f, hf, htoken⟩ := exists_finding h
  obtain ⟨hle, hstop, hexact⟩ := findings_exact hf
  exact ⟨f.start, f.stop, hle, hstop, hexact.liesAt htoken⟩

theorem exists_liesAt_of_mem_errors {program : String} {d : Diagnostic} (h : d ∈ (Lexed.ofProgram program).errors) :
    ∃ start stop, start ≤ stop ∧ stop ≤ program.toList.length ∧ d.LiesAt program start stop := by
  rw [lexed_errors] at h
  obtain ⟨p, hp, hd⟩ := List.mem_filterMap.1 h
  obtain ⟨-, hlt, hle⟩ := (Located.tiles_ofProgram program).bounds.2 p hp
  exact ⟨p.start, p.stop, Nat.le_of_lt hlt, hle,
    Located.liesAt_of_mistake? (Located.first_of_mem_ofProgram hp) hd⟩

theorem Diagnostic.LiesAt.cause_or {program : String} {start stop : Nat} {d : Diagnostic}
    (h : d.LiesAt program start stop) : d.cause = .unexpectedCharacter ∨ d.cause = .unterminatedString :=
  h.cause.imp And.left And.left

/-! ### Mistakes in the grammar -/

theorem terminated_lexed (program : String) :
    ExprReader.terminated (Lexed.ofProgram program).tokens = (Lexed.ofProgram program).tokens := by
  have hlast : (Lexed.ofProgram program).tokens.getLast? = some (Token.ending program.toList) := by
    rw [lexed_tokens, List.getLast?_concat]
  rw [ExprReader.terminated, hlast]
  rfl

/-- A token of a program has a span in the program, so that a mistake at the token has the span of the token. -/
theorem errorSpan_of_mem {program : String} {token : Token} (h : token ∈ (Lexed.ofProgram program).tokens) :
    ExprReader.errorSpan token = token.span ∧ token.line = token.span.stop.line := by
  obtain ⟨start, stop, -, -, hexact⟩ := exists_liesAt_of_mem_tokens h
  refine ⟨?_, hexact.line⟩
  -- only a token that belongs to no text has a line below one
  have hline : ¬ token.span.start.line < 1 := by
    rw [hexact.span]
    exact Int.not_lt.2 (Position.one_le_line _ _)
  rw [ExprReader.errorSpan, if_neg hline]

theorem errors_ofTokens (limit : Nat) (program : String) (tokens : List Token) :
    (Parsed.ofTokens limit program tokens).errors
      = (({ program := program } : ExprReader).parse limit tokens).2.log := by
  unfold Parsed.ofTokens
  split <;> rename_i h <;> rw [h]

/-- A mistake in a program is one in its tokens, or lies at one of them. -/
theorem mem_errors_cases {limit : Nat} {program : String} {d : Diagnostic}
    (h : d ∈ (Parsed.ofProgram limit program).errors) :
    d ∈ (Lexed.ofProgram program).errors ∨ ∃ token ∈ (Lexed.ofProgram program).tokens, ∃ why : Rejection,
      d = ⟨program, token.span, .malformed token why.message⟩ := by
  refine (List.mem_append.1 h).imp_right fun hd => ?_
  rw [errors_ofTokens] at hd
  rcases ExprReader.parse_or_reject limit (Lexed.ofProgram program).tokens with
      ⟨-, e, hparse⟩ | ⟨token, ht, why, -, hparse⟩
  · obtain ⟨r, hr, hlog⟩ := hparse { program := program }
    rw [hr, hlog] at hd
    cases hd
  · obtain ⟨r, hr, hlog⟩ := hparse { program := program }
    rw [terminated_lexed] at ht
    rw [hr, hlog, (errorSpan_of_mem ht).1] at hd
    exact ⟨token, ht, why, List.mem_singleton.1 hd⟩

/-- What is wrong with a program has a message. -/
theorem isUnnamed_of_mem_errors {limit : Nat} {program : String} {d : Diagnostic}
    (h : d ∈ (Parsed.ofProgram limit program).errors) : d.cause.isUnnamed = false := by
  rcases mem_errors_cases h with h | ⟨token, -, reason, rfl⟩
  · obtain ⟨_, _, -, -, hd⟩ := exists_liesAt_of_mem_errors h
    rcases hd.cause_or with hc | hc <;> rw [hc] <;> rfl
  · rfl

/-- Every token and mistake of a program lies at a stretch of it, the stretches come one after the other, and a mistake
that a parse adds lies at one of the tokens. -/
theorem lexed_placement (program : String) :
    (∃ fs : List Finding, fs.filterMap Finding.token? = (Lexed.ofProgram program).tokens ∧
      fs.filterMap Finding.mistake? = (Lexed.ofProgram program).errors ∧
      fs.Pairwise (fun f f' => f.stop ≤ f'.start) ∧
      ∀ f ∈ fs, f.start ≤ f.stop ∧ f.stop ≤ program.toList.length ∧ f.Exact program) ∧
    (∃ token, (Lexed.ofProgram program).tokens.getLast? = some token ∧ token.isEnd = true) ∧
    ∀ (limit : Nat) (r : ExprReader), (r.parse limit (Lexed.ofProgram program).tokens).2.log = r.log ∨
      ∃ d, (r.parse limit (Lexed.ofProgram program).tokens).2.log = r.log ++ [d] ∧ d.line = d.span.stop.line ∧
        ∃ token ∈ (Lexed.ofProgram program).tokens, ∃ reason, d.cause = .malformed token reason ∧
          d.span = token.span := by
  refine ⟨⟨Finding.ofProgram program, findings_token? program, findings_mistake? program, findings_pairwise program,
    fun f hf => findings_exact hf⟩, ⟨Token.ending program.toList, ?_, rfl⟩, ?_⟩
  · rw [lexed_tokens, List.getLast?_concat]
  · intro limit r
    rcases r.log_parse limit (Lexed.ofProgram program).tokens with h | ⟨token, ht, reason, h⟩
    · exact Or.inl h
    · rw [terminated_lexed] at ht
      obtain ⟨hspan, hline⟩ := errorSpan_of_mem ht
      refine Or.inr ⟨_, h, ?_, token, ht, reason, rfl, hspan⟩
      show token.line = (ExprReader.errorSpan token).stop.line
      rw [hspan, hline]

end LoxSyntax
