import LoxSyntax.Expr.Reader
import LoxSyntax.Proofs.Expr.Acceptance

/-!
# Parsing and the grammar

A parse takes the tokens before the first one that ends the input.  It gives an expression exactly when these tokens
spell it and it respects the levels of its operators, provided that nothing is nested too deeply.  So an expression
that is given is the only one with its tokens.

* `Stops.cases`: where a parse can stop.
* `parse_or_reject`: what a parse comes to and what it adds to the log.
* `spells_of_parse`: the expression that is given is spelled by the tokens.
* `parse_of_spells`: the expression that the tokens spell is given.
* `parse_eq_some_iff`: both, up to the places of the nodes.
-/

namespace LoxSyntax.ExprReader

open Assembly (StepsTo)

variable {limit : Nat}

/-- The tokens before the first one that ends the input. -/
def body (tokens : List Token) : List Token := tokens.takeWhile fun t => !t.isEnd

/-- Some token is met when what is begun before it is nested too deeply. -/
def TooDeep (limit : Nat) (tokens : List Token) : Prop :=
  ∃ t, (Assembly.run limit loosestLevel {} (terminated tokens)).1 = .rejected t .tooDeep

/-! ### The tokens that are parsed -/

private theorem body_cases (tokens : List Token) :
    body tokens = tokens ∨ ∃ t rest, t.isEnd = true ∧ tokens = body tokens ++ t :: rest := by
  induction tokens with
  | nil => exact Or.inl rfl
  | cons t ts ih =>
    unfold body at ih ⊢
    by_cases ht : t.isEnd = true
    · exact Or.inr ⟨t, ts, ht, by simp [ht]⟩
    · have ht : t.isEnd = false := by simpa using ht
      rcases ih with ih | ⟨u, rest, hu, ih⟩
      · left
        simp [ht, ih]
      · refine Or.inr ⟨u, rest, hu, ?_⟩
        rw [List.takeWhile_cons, ht]
        exact congrArg (t :: ·) ih

theorem isEnd_of_mem_body {tokens : List Token} {t : Token} (h : t ∈ body tokens) : t.isEnd = false := by
  have key := List.all_eq_true.1 List.all_takeWhile t h
  simpa using key

theorem terminated_eq (tokens : List Token) :
    ∃ t rest, t.isEnd = true ∧ terminated tokens = body tokens ++ t :: rest := by
  unfold terminated
  rcases body_cases tokens with hb | ⟨t, rest, ht, hb⟩
  · split
    · rename_i h
      rw [List.getLast?_eq_none_iff.1 h]
      exact ⟨_, [], rfl, rfl⟩
    · rename_i t h
      have hm : t ∈ body tokens := hb.symm ▸ List.mem_of_getLast? h
      have ht := isEnd_of_mem_body hm
      simp only [ht, hb]
      exact ⟨_, [], rfl, rfl⟩
  · split
    · rename_i h
      rw [List.getLast?_eq_none_iff.1 h] at hb
      simp [body] at hb
    · rename_i u _
      split
      · exact ⟨t, rest, ht, hb⟩
      · refine ⟨t, rest ++ [Token.endOfInput u.line], ht, ?_⟩
        rw [← List.cons_append, ← List.append_assoc, ← hb]

theorem isEnd_of_shift {s r : Assembly} {t : Token} (h : StepsTo limit s t (.shift r)) : t.isEnd = false := by
  rw [← Bool.not_eq_true]
  intro ht
  have hk : t.kind = .endOfInput := by simpa [Token.isEnd] using ht
  cases h with
  | unary _ h => simp [hk, Kind.prefixOperators] at h
  | paren _ h => simp [hk] at h
  | literal _ h =>
    have := h.kind_cases.2.2
    simp [ht] at this
  | binary h => exact Assembly.not_operator_of_isEnd ht _ h
  | grouping _ h => simp [hk] at h

theorem isEnd_of_shiftAll? {s s' : Assembly} {p : List Token} (h : s.shiftAll? limit p = some s') :
    ∀ t ∈ p, t.isEnd = false := by
  induction p generalizing s with
  | nil => simp
  | cons u p ih =>
    obtain ⟨r, hr, h⟩ := Assembly.shiftAll?_cons_eq_some_iff.1 h
    intro t ht
    rcases List.mem_cons.1 ht with rfl | ht
    · exact isEnd_of_shift hr
    · exact ih h t ht

/-! ### Where a parse stops -/

/-- The tokens `p` are taken and lead to the assembly `s`; the token `t` comes next. -/
structure Stops (limit : Nat) (tokens p : List Token) (t : Token) (s : Assembly) : Prop where
  split : ∃ q, terminated tokens = p ++ t :: q
  taken : Assembly.shiftAll? limit {} p = some s

/-- A parse stops at the token that ends the input or at one before it. -/
theorem Stops.cases {tokens p : List Token} {t : Token} {s : Assembly} (h : Stops limit tokens p t s) :
    (t.isEnd = true ∧ p = body tokens) ∨ (t.isEnd = false ∧ ∃ q, body tokens = p ++ t :: q) := by
  obtain ⟨q, hq⟩ := h.split
  obtain ⟨u, rest, hu, hb⟩ := terminated_eq tokens
  rw [hb] at hq
  rcases List.append_eq_append_iff.1 hq with ⟨as, hp, has⟩ | ⟨bs, hbody, hbs⟩
  · cases as with
    | nil =>
      cases has
      exact Or.inl ⟨hu, by simpa using hp⟩
    | cons a as =>
      -- the end of the input is never taken
      cases has
      have hm : u ∈ p := by simp [hp]
      have := isEnd_of_shiftAll? h.taken u hm
      rw [hu] at this
      cases this
  · cases bs with
    | nil =>
      cases hbs
      exact Or.inl ⟨hu, by simpa using hbody.symm⟩
    | cons b bs =>
      cases hbs
      have hm : t ∈ body tokens := by simp [hbody]
      exact Or.inr ⟨isEnd_of_mem_body hm, bs, hbody⟩

/-- Every parse stops, at the latest where the input ends. -/
theorem exists_stops (limit : Nat) (tokens : List Token) :
    ∃ p t s, Stops limit tokens p t s ∧
      ((∃ e, StepsTo limit s t (.accept e)) ∨ ∃ why, StepsTo limit s t (.reject why)) := by
  rcases Assembly.shiftAll?_cases limit {} (terminated tokens) with ⟨s, hs⟩ | ⟨p, t, q, s, hsplit, hp, h⟩
  · obtain ⟨u, rest, hu, hb⟩ := terminated_eq tokens
    have := isEnd_of_shiftAll? hs u (by simp [hb])
    rw [hu] at this
    cases this
  · exact ⟨p, t, s, ⟨⟨q, hsplit⟩, hp⟩, h⟩

/-- The reader after a parse that stopped before the tokens `q`, up to what is added to the log. -/
private def stopped (r : ExprReader) (tokens : List Token) (q : List Token) : ExprReader :=
  let loaded := r.load (terminated tokens)
  { loaded with cursor := loaded.cursor.skip ((terminated tokens).length - q.length) }

private theorem peek?_stopped (r : ExprReader) {tokens p q : List Token} {t : Token}
    (h : terminated tokens = p ++ t :: q) : (stopped r tokens (t :: q)).peek? = some t := by
  have hn : (terminated tokens).length - (t :: q).length = p.length := by
    rw [h, List.length_append]
    omega
  show ((Cursor.atStart (terminated tokens)).skip _).after.head? = some t
  rw [hn, Cursor.after_skip]
  simp [Cursor.atStart, h]

theorem parse_of_accept {tokens p : List Token} {t : Token} {s : Assembly} {e : Expr Span}
    (h : Stops limit tokens p t s) (ha : StepsTo limit s t (.accept e)) (r : ExprReader) :
    ∃ r' : ExprReader, r'.log = r.log ∧ r'.program = r.program ∧
      r.parse limit tokens
        = if t.isEnd then (.ok (some e), r') else (.ok none, r'.addError t "Expect end of expression.") := by
  obtain ⟨q, hq⟩ := h.split
  refine ⟨stopped r tokens (t :: q), rfl, rfl, ?_⟩
  have hrun : Assembly.run limit loosestLevel {} (terminated tokens) = (.accepted e, t :: q) := by
    rw [hq, Assembly.run_shiftAll? h.taken, Assembly.run_of_accept ha]
  have hread : (r.load (terminated tokens)).readExpr limit loosestLevel = (.ok e, stopped r tokens (t :: q)) := by
    unfold readExpr
    rw [show (r.load (terminated tokens)).cursor.after = terminated tokens from rfl, hrun]
    rfl
  unfold parse
  rw [hread]
  simp only [peek?_stopped r hq]
  rfl

theorem parse_of_reject {tokens p : List Token} {t : Token} {s : Assembly} {why : Rejection}
    (h : Stops limit tokens p t s) (hr : StepsTo limit s t (.reject why)) (r : ExprReader) :
    ∃ r' : ExprReader, r'.log = r.log ∧ r'.program = r.program ∧
      r.parse limit tokens = (.ok none, r'.addError t why.message) := by
  obtain ⟨q, hq⟩ := h.split
  refine ⟨stopped r tokens (t :: q), rfl, rfl, ?_⟩
  have hrun : Assembly.run limit loosestLevel {} (terminated tokens) = (.rejected t why, t :: q) := by
    rw [hq, Assembly.run_shiftAll? h.taken, Assembly.run_of_reject hr]
  unfold parse readExpr
  rw [show (r.load (terminated tokens)).cursor.after = terminated tokens from rfl, hrun]
  rfl

theorem tooDeep_of_reject {tokens p : List Token} {t : Token} {s : Assembly} (h : Stops limit tokens p t s)
    (hr : StepsTo limit s t (.reject .tooDeep)) : TooDeep limit tokens := by
  obtain ⟨q, hq⟩ := h.split
  refine ⟨t, ?_⟩
  rw [hq, Assembly.run_shiftAll? h.taken, Assembly.run_of_reject hr]

/-- A parse gives an expression, or rejects a token and adds this to the log; the reader has no part in it, and when the
tokens are nested too deeply it is for this reason. -/
theorem parse_or_reject (limit : Nat) (tokens : List Token) :
    (¬ TooDeep limit tokens ∧ ∃ e, ∀ r : ExprReader, ∃ r',
        r.parse limit tokens = (.ok (some e), r') ∧ r'.log = r.log) ∨
      ∃ t ∈ terminated tokens, ∃ why : Rejection, (TooDeep limit tokens → why = .tooDeep) ∧
        ∀ r : ExprReader, ∃ r', r.parse limit tokens = (.ok none, r') ∧
          r'.log = r.log ++ [⟨r.program, errorSpan t, .malformed t why.message⟩] := by
  obtain ⟨p, t, s, hs, h⟩ := exists_stops limit tokens
  obtain ⟨q, hq⟩ := hs.split
  have hm : t ∈ terminated tokens := by simp [hq]
  have hadd {r r' : ExprReader} (hlog : r'.log = r.log) (hprog : r'.program = r.program) (why : Rejection) :
      (r'.addError t why.message).log = r.log ++ [⟨r.program, errorSpan t, .malformed t why.message⟩] := by
    rw [addError, hlog, hprog]
  rcases h with ⟨e, ha⟩ | ⟨why, hr⟩
  · have hd : ¬ TooDeep limit tokens := by
      rintro ⟨u, hu⟩
      rw [hq, Assembly.run_shiftAll? hs.taken, Assembly.run_of_accept ha] at hu
      cases hu
    cases ht : t.isEnd with
    | true =>
      refine Or.inl ⟨hd, e, fun r => ?_⟩
      obtain ⟨r', hlog, -, hp⟩ := parse_of_accept hs ha r
      rw [ht, if_pos rfl] at hp
      exact ⟨r', hp, hlog⟩
    | false =>
      refine Or.inr ⟨t, hm, .expectEnd, fun h => absurd h hd, fun r => ?_⟩
      obtain ⟨r', hlog, hprog, hp⟩ := parse_of_accept hs ha r
      rw [ht, if_neg Bool.false_ne_true] at hp
      exact ⟨_, hp, hadd hlog hprog .expectEnd⟩
  · refine Or.inr ⟨t, hm, why, ?_, fun r => ?_⟩
    · rintro ⟨u, hu⟩
      rw [hq, Assembly.run_shiftAll? hs.taken, Assembly.run_of_reject hr] at hu
      cases hu
      rfl
    · obtain ⟨r', hlog, hprog, hp⟩ := parse_of_reject hs hr r
      exact ⟨_, hp, hadd hlog hprog why⟩

/-- A parse gives an expression, or adds one mistake at a token to the log, with a reason in words. -/
theorem parse_cases (limit : Nat) (tokens : List Token) :
    (¬ TooDeep limit tokens ∧ ∃ e, ∀ r : ExprReader, ∃ r',
        r.parse limit tokens = (.ok (some e), r') ∧ r'.log = r.log) ∨
      ∃ t ∈ terminated tokens, ∃ reason, (TooDeep limit tokens → reason = Rejection.tooDeep.message) ∧
        ∀ r : ExprReader, ∃ r', r.parse limit tokens = (.ok none, r') ∧
          r'.log = r.log ++ [⟨r.program, errorSpan t, .malformed t reason⟩] := by
  refine (parse_or_reject limit tokens).imp_right ?_
  rintro ⟨t, ht, why, hdeep, h⟩
  exact ⟨t, ht, why.message, fun hd => congrArg Rejection.message (hdeep hd), h⟩

/-- A parse adds nothing to the log, or one mistake at one of the tokens. -/
theorem log_parse (r : ExprReader) (limit : Nat) (tokens : List Token) :
    (r.parse limit tokens).2.log = r.log ∨ ∃ t ∈ terminated tokens, ∃ reason,
      (r.parse limit tokens).2.log = r.log ++ [⟨r.program, errorSpan t, .malformed t reason⟩] := by
  rcases parse_cases limit tokens with ⟨-, e, h⟩ | ⟨t, ht, reason, -, h⟩
  · obtain ⟨r', hp, hlog⟩ := h r
    exact Or.inl (by rw [hp, hlog])
  · obtain ⟨r', hp, hlog⟩ := h r
    exact Or.inr ⟨t, ht, reason, by rw [hp, hlog]⟩

/-- What tokens are parsed to does not depend on the program that they are said to be part of. -/
theorem ofTokens_cases (limit : Nat) (tokens : List Token) :
    (∃ e, ∀ program, Parsed.ofTokens limit program tokens = ⟨some e, []⟩) ∨
      ∃ t reason, ∀ program,
        Parsed.ofTokens limit program tokens = ⟨none, [⟨program, errorSpan t, .malformed t reason⟩]⟩ := by
  rcases parse_cases limit tokens with ⟨-, e, h⟩ | ⟨t, -, reason, -, h⟩
  · refine Or.inl ⟨e, fun program => ?_⟩
    obtain ⟨r', hp, hlog⟩ := h { program := program }
    rw [Parsed.ofTokens, hp]
    exact congrArg (Parsed.mk (some e)) hlog
  · refine Or.inr ⟨t, reason, fun program => ?_⟩
    obtain ⟨r', hp, hlog⟩ := h { program := program }
    rw [Parsed.ofTokens, hp]
    exact congrArg (Parsed.mk none) hlog

/-! ### Soundness and completeness -/

/-- Where a parse that gives an expression has stopped. -/
theorem stops_of_parse {r r' : ExprReader} {tokens : List Token} {e : Expr Span}
    (h : r.parse limit tokens = (.ok (some e), r')) :
    ∃ t s, Stops limit tokens (body tokens) t s ∧ StepsTo limit s t (.accept e) := by
  obtain ⟨p, t, s, hs, ⟨a, ha⟩ | ⟨why, hw⟩⟩ := exists_stops limit tokens
  · obtain ⟨r₁, -, -, hp⟩ := parse_of_accept hs ha r
    rw [h] at hp
    split at hp
    · rename_i ht
      cases hp
      rcases hs.cases with ⟨-, rfl⟩ | ⟨hf, -⟩
      · exact ⟨t, s, hs, ha⟩
      · rw [ht] at hf
        cases hf
    · cases hp
  · obtain ⟨r₁, -, -, hp⟩ := parse_of_reject hs hw r
    rw [h] at hp
    cases hp

theorem spells_of_parse {r r' : ExprReader} {tokens : List Token} {e : Expr Span}
    (h : r.parse limit tokens = (.ok (some e), r')) : (∃ n, e.HasLevel n) ∧ e.Spells (body tokens) := by
  obtain ⟨t, s, hs, ha⟩ := stops_of_parse h
  have hheld := Assembly.stateHolds_shiftAll? Assembly.stateHolds_start hs.taken
  obtain ⟨n, hn, hw⟩ := Assembly.spells_of_accept hheld ha
  exact ⟨⟨n, hn⟩, hw⟩

/-- The expression of a program comes from a parse of its tokens. -/
theorem parse_of_tree? {program : String} {e : Expr Span} (h : (Parsed.ofProgram limit program).tree? = some e) :
    ∃ r', ({ program := program } : ExprReader).parse limit (Lexed.ofProgram program).tokens = (.ok (some e), r') := by
  rw [Parsed.ofProgram, Parsed.ofTokens] at h
  dsimp only at h
  split at h
  · rename_i r' hp
    dsimp only at h
    subst h
    exact ⟨r', hp⟩
  · cases h

theorem parse_of_spells {α : Type} {e : Expr α} {n : Nat} {tokens : List Token} (hn : e.HasLevel n)
    (hw : e.Spells (body tokens)) (hd : ¬ TooDeep limit tokens) (r : ExprReader) :
    ∃ e' r', r.parse limit tokens = (.ok (some e'), r') ∧ e'.shape = e.shape := by
  obtain ⟨t, rest, ht, hb⟩ := terminated_eq tokens
  rcases Assembly.accepts_of_spells hn hw ht with h | ⟨s, e', hs, he, ha⟩
  · obtain ⟨u, hu⟩ := Assembly.run_of_overflows h (t :: rest)
    rw [← hb] at hu
    exact absurd ⟨u, hu⟩ hd
  · obtain ⟨r', -, -, hp⟩ := parse_of_accept ⟨⟨rest, hb⟩, hs⟩ ha r
    simp only [ht, ↓reduceIte] at hp
    exact ⟨e', r', hp, he⟩

/-- The expressions that a parse gives are those that the tokens spell and that respect the levels. -/
theorem parse_eq_some_iff {α : Type} (r : ExprReader) {tokens : List Token} (hd : ¬ TooDeep limit tokens)
    (e : Expr α) :
    (∃ e' r', r.parse limit tokens = (.ok (some e'), r') ∧ e'.shape = e.shape) ↔
      (∃ n, e.HasLevel n) ∧ e.Spells (body tokens) := by
  constructor
  · rintro ⟨e', r', h, he⟩
    obtain ⟨⟨n, hn⟩, hw⟩ := spells_of_parse h
    exact ⟨⟨n, (Expr.hasLevel_congr he).1 hn⟩, (Expr.spells_congr he).1 hw⟩
  · rintro ⟨⟨n, hn⟩, hw⟩
    exact parse_of_spells hn hw hd r

/-- Two operators of one level associate to the left, a prefix operator takes the parentheses after it and no more, and
what follows the end of the input is not looked at. -/
theorem parse_eq_some_iff_chain :
    let tokens := [Kind.bang, .leftParen, .trueWord, .minus, .falseWord, .minus, .nullWord, .rightParen, .equalEqual,
      .minus, .trueWord, .endOfInput, .star].map Kind.token
    let yes : Expr Unit := .literal () (.bool true)
    let no : Expr Unit := .literal () (.bool false)
    let chain : Expr Unit := .binary () (.binary () yes Kind.minus.token no) Kind.minus.token (.literal () .null)
    let e : Expr Unit := .binary () (.unary () Kind.bang.token (.grouping () chain)) Kind.equalEqual.token
      (.unary () Kind.minus.token yes)
    ¬ TooDeep 100 tokens ∧
      ∃ e' r', ({ program := "" } : ExprReader).parse 100 tokens = (.ok (some e'), r') ∧ e'.shape = e.shape := by
  intro tokens yes no chain e
  have hd : ¬ TooDeep 100 tokens := by
    rintro ⟨t, ht⟩
    cases ht
  have hminus : Kind.minus.token.kind ∈ Kind.operatorsOf 3 := by decide
  have hchain : chain.HasLevel 3 :=
    .binary () hminus (.binary () hminus (.literal () _) (by decide) (.literal () _) (by decide)) (by decide)
      (.literal () _) (by decide)
  have hlevel : e.HasLevel 1 :=
    .binary () (show Kind.equalEqual.token.kind ∈ Kind.operatorsOf 1 by decide)
      (.unary () (show Kind.bang.token.kind ∈ Kind.prefixOperators by decide) (.grouping () hchain) (by decide))
      (by decide)
      (.unary () (show Kind.minus.token.kind ∈ Kind.prefixOperators by decide) (.literal () _) (by decide))
      (by decide)
  have hyes : yes.Spells [Kind.trueWord.token] := .literal () (.trueWord rfl)
  have hinner : chain.Spells ([Kind.trueWord, .minus, .falseWord, .minus, .nullWord].map Kind.token) :=
    .binary () _ (.binary () _ hyes (.literal () (.falseWord rfl))) (.literal () (.nullWord rfl))
  have hspells : e.Spells (body tokens) :=
    .binary () _ (.unary () _ (.grouping () rfl rfl hinner)) (.unary () _ hyes)
  exact ⟨hd, (parse_eq_some_iff _ hd e).2 ⟨⟨1, hlevel⟩, hspells⟩⟩

end LoxSyntax.ExprReader
