import LoxSyntax.Proofs.Expr.Parsing

/-!
# The place and the reason of a mistake

A parse that gives no expression adds one mistake to the log.  It is at the first token with which the tokens before it
go on to no sentence, and its reason tells how they go on: with an expression, with a closing parenthesis, or not at
all because they are a sentence already.

* `not_viable_of_step`: a token that is not taken goes on to no sentence.
* `continues_awaiting`, `continues_inside`, `continues_whole`: how tokens go on, by what the assembly awaits.
* `parse_log`: the one mistake of a parse, and that there is none beside an expression.
-/

namespace LoxSyntax

variable {limit : Nat}

namespace Assembly

/-- How tokens go on to sentences when the token after them has no place for the given reason. -/
structure Continues (p : List Token) (why : Rejection) : Prop where
  viable : Expr.Viable p
  expression_iff {n : Token} (hn : n.kind = .number) : why = .expectExpression ↔ Expr.Viable (p ++ [n])
  closing_iff {c : Token} (hc : c.kind = .rightParen) : why = .expectClosing ↔ Expr.Viable (p ++ [c])
  whole_iff : why = .expectEnd ↔ Expr.IsSentence p

/-! ### Tokens that go on -/

theorem viable_append_number {fs : List Frame} {p : List Token} (h : FramesHold fs p) {n : Token}
    (hn : n.kind = .number) : Expr.Viable (p ++ [n]) :=
  viable_of_holds ⟨.literal n.span n.literal, h.admits_primary, p, [n], h, .literal _ (.number hn), rfl⟩

theorem viable_of_framesHold {fs : List Frame} {p : List Token} (h : FramesHold fs p) : Expr.Viable p := by
  obtain ⟨q, hq⟩ := viable_append_number h (show Kind.number.token.kind = .number from rfl)
  rw [List.append_assoc] at hq
  exact ⟨_, hq⟩

/-- A token that is not taken, and not because of the depth, goes on to no sentence. -/
theorem not_viable_of_step {s : Assembly} {p : List Token} {t : Token} {a : Step}
    (hs : Assembly.shiftAll? limit {} p = some s) (ha : StepsTo limit s t a) (hd : a ≠ .reject .tooDeep)
    (hn : ∀ r, a ≠ .shift r) : ¬ Expr.Viable (p ++ [t]) := by
  intro hv
  rcases step_of_viable hs hv with ⟨r, hr⟩ | hr
  · exact hn r (ha.unique hr)
  · exact hd (ha.unique hr)

private theorem number_not_operator {n : Token} (hn : n.kind = .number) (level : Nat) :
    n.kind ∉ Kind.operatorsOf level := by
  rw [hn, ← Kind.binaryLevel?_eq_some_iff]
  simp [Kind.binaryLevel?]

private theorem rightParen_not_operator {c : Token} (hc : c.kind = .rightParen) (level : Nat) :
    c.kind ∉ Kind.operatorsOf level := by
  rw [hc, ← Kind.binaryLevel?_eq_some_iff]
  simp [Kind.binaryLevel?]

private theorem rightParen_not_denotes {c : Token} (hc : c.kind = .rightParen) (v : Literal) : ¬ c.Denotes v := by
  rw [← Token.value?_eq_some_iff]
  simp [Token.value?, hc]

/-! ### What is awaited -/

theorem continues_awaiting {fs : List Frame} {p : List Token} (hs : Assembly.shiftAll? limit {} p = some ⟨fs, none⟩)
    (hd : depth fs ≤ limit) : Continues p .expectExpression := by
  cases stateHolds_shiftAll? stateHolds_start hs with
  | awaiting hp =>
    refine ⟨viable_of_framesHold hp, ?_, ?_, ?_⟩
    · intro n hn
      exact iff_of_true rfl (viable_append_number hp hn)
    · intro c hc
      have hr : StepsTo limit ⟨fs, none⟩ c (.reject .expectExpression) :=
        .expectExpression hd (by simp [hc, Kind.prefixOperators]) (by simp [hc]) (rightParen_not_denotes hc)
      exact iff_of_false (by decide) (not_viable_of_step hs hr (by simp) (by simp))
    · refine iff_of_false (by decide) fun h => ?_
      obtain ⟨fs', e, e', he, -⟩ := close_of_isSentence hs h
      cases he

theorem continues_inside {fs fs' : List Frame} {e e' : Expr Span} {opening : Token} {p : List Token}
    (hs : Assembly.shiftAll? limit {} p = some ⟨fs, some e⟩) (hc : close 0 fs e = (.paren opening :: fs', e')) :
    Continues p .expectClosing := by
  have hp := stateHolds_shiftAll? stateHolds_start hs
  cases hp with
  | complete h =>
    refine ⟨viable_of_holds h, ?_, ?_, ?_⟩
    · intro n hn
      have hr : StepsTo limit ⟨fs, some e⟩ n (.reject .expectClosing) :=
        .expectClosing (number_not_operator hn) hc (by simp [hn])
      exact iff_of_false (by decide) (not_viable_of_step hs hr (by simp) (by simp))
    · intro c hck
      have hstep : StepsTo limit ⟨fs, some e⟩ c _ := .grouping hc hck
      cases stateHolds_step (.complete h) hstep with
      | complete h' => exact iff_of_true rfl (viable_of_holds h')
    · refine iff_of_false (by decide) fun h => ?_
      obtain ⟨gs, e₁, e₂, he, hc'⟩ := close_of_isSentence hs h
      cases he
      rw [hc] at hc'
      cases hc'

theorem continues_whole {fs : List Frame} {e e' : Expr Span} {p : List Token}
    (hs : Assembly.shiftAll? limit {} p = some ⟨fs, some e⟩) (hc : close 0 fs e = ([], e')) :
    Continues p .expectEnd := by
  have hp := stateHolds_shiftAll? stateHolds_start hs
  have hstuck : ∀ t : Token, (∀ level, t.kind ∉ Kind.operatorsOf level) → ¬ Expr.Viable (p ++ [t]) := fun t ht =>
    not_viable_of_step hs (.accept ht hc) (by simp) (by simp)
  have hwhole : Expr.IsSentence p := by
    have ha : StepsTo limit ⟨fs, some e⟩ Kind.endOfInput.token (.accept e') := .accept (not_operator_of_isEnd rfl) hc
    obtain ⟨n, hn, hw⟩ := spells_of_accept hp ha
    exact .of_spells hn hw
  refine ⟨hwhole.viable, ?_, ?_, ?_⟩
  · intro n hn
    exact iff_of_false (by decide) (hstuck n (number_not_operator hn))
  · intro c hck
    exact iff_of_false (by decide) (hstuck c (rightParen_not_operator hck))
  · exact iff_of_true rfl hwhole

theorem continues_of_reject {s : Assembly} {p : List Token} {t : Token} {why : Rejection}
    (hs : Assembly.shiftAll? limit {} p = some s) (hr : StepsTo limit s t (.reject why)) (hd : why ≠ .tooDeep) :
    Continues p why := by
  cases hr with
  | tooDeep _ => exact absurd rfl hd
  | expectExpression hdepth _ _ _ => exact continues_awaiting hs hdepth
  | expectClosing _ hc _ => exact continues_inside hs hc

theorem continues_of_accept {s : Assembly} {p : List Token} {t : Token} {e : Expr Span}
    (hs : Assembly.shiftAll? limit {} p = some s) (ha : StepsTo limit s t (.accept e)) : Continues p .expectEnd := by
  cases ha with
  | accept _ hc => exact continues_whole hs hc

end Assembly

namespace ExprReader

open Assembly (StepsTo)

/-- A mistake in the tokens `w`, at index `k` or, when `k` is the length, where they end: it is the first place at which
they go on to no sentence, and the reason says what a sentence has there. -/
structure Misplaced (w : List Token) (k : Nat) (reason : String) : Prop where
  le_length : k ≤ w.length
  viable : Expr.Viable (w.take k)
  not_viable : k < w.length → ¬ Expr.Viable (w.take (k + 1))
  not_sentence : k = w.length → ¬ Expr.IsSentence w
  reason_mem : reason ∈ ["Expect expression.", "Expect ')' after expression.", "Expect end of expression."]
  expression_iff (n : Token) (hn : n.kind = .number) :
    reason = "Expect expression." ↔ Expr.Viable (w.take k ++ [n])
  closing_iff (c : Token) (hc : c.kind = .rightParen) :
    reason = "Expect ')' after expression." ↔ Expr.Viable (w.take k ++ [c])
  ending_iff : reason = "Expect end of expression." ↔ Expr.IsSentence (w.take k)

private theorem message_eq_iff {why : Rejection} (hd : why ≠ .tooDeep) :
    why.message ∈ ["Expect expression.", "Expect ')' after expression.", "Expect end of expression."] ∧
      (why.message = "Expect expression." ↔ why = .expectExpression) ∧
      (why.message = "Expect ')' after expression." ↔ why = .expectClosing) ∧
      (why.message = "Expect end of expression." ↔ why = .expectEnd) := by
  cases why <;> first | exact absurd rfl hd | decide

theorem Stops.getElem? {tokens p : List Token} {t : Token} {s : Assembly} (h : Stops limit tokens p t s) :
    (terminated tokens)[p.length]? = some t := by
  obtain ⟨q, hq⟩ := h.split
  simp [hq]

theorem Stops.isEnd_iff {tokens p : List Token} {t : Token} {s : Assembly} (h : Stops limit tokens p t s) :
    t.isEnd = true ↔ p.length = (body tokens).length := by
  rcases h.cases with ⟨ht, hb⟩ | ⟨ht, q, hb⟩
  · exact iff_of_true ht (congrArg List.length hb)
  · rw [hb, List.length_append, List.length_cons]
    exact iff_of_false (by simp [ht]) (by omega)

/-- A parse that stops at a token with no place reports it at its index among the tokens. -/
private theorem misplaced_of_stops {tokens p : List Token} {t : Token} {s : Assembly} {why : Rejection}
    (h : Stops limit tokens p t s) (hc : Assembly.Continues p why) (hd : why ≠ .tooDeep)
    (ht : t.isEnd = false → ¬ Expr.Viable (p ++ [t])) (he : t.isEnd = true → why ≠ .expectEnd) :
    Misplaced (body tokens) p.length why.message := by
  obtain ⟨hmem, hexpr, hclose, hend⟩ := message_eq_iff hd
  have htake : (body tokens).take p.length = p := by
    rcases h.cases with ⟨-, hb⟩ | ⟨-, q, hb⟩
    · rw [← hb, List.take_length]
    · rw [hb, List.take_left' rfl]
  refine ⟨?_, ?_, ?_, ?_, hmem, ?_, ?_, ?_⟩
  · rw [← htake]
    exact List.length_take_le' _ _
  · rw [htake]
    exact hc.viable
  · intro hlt
    rcases h.cases with ⟨-, hb⟩ | ⟨hf, q, hb⟩
    · rw [hb] at hlt
      exact absurd hlt (Nat.lt_irrefl _)
    · have hnext : (body tokens).take (p.length + 1) = p ++ [t] := by
        rw [hb, List.take_length_add_append]
        rfl
      rw [hnext]
      exact ht hf
  · intro hlen
    rcases h.cases with ⟨hf, hb⟩ | ⟨-, q, hb⟩
    · rw [← hb, ← hc.whole_iff]
      exact he hf
    · rw [hb, List.length_append, List.length_cons] at hlen
      omega
  · intro n hn
    rw [htake, hexpr, hc.expression_iff hn]
  · intro c hk
    rw [htake, hclose, hc.closing_iff hk]
  · rw [htake, hend, hc.whole_iff]

/-- A parse adds nothing to the log when it gives an expression, and otherwise one mistake, at the first token with
which no sentence begins. -/
theorem parse_log (r : ExprReader) {tokens : List Token} (hd : ¬ TooDeep limit tokens) :
    (∃ e r', r.parse limit tokens = (.ok (some e), r') ∧ r'.log = r.log) ∨
      ∃ r' k t reason, r.parse limit tokens = (.ok none, r') ∧ (terminated tokens)[k]? = some t ∧
        (t.isEnd = true ↔ k = (body tokens).length) ∧
        r'.log = r.log ++ [⟨r.program, errorSpan t, .malformed t reason⟩] ∧
        Misplaced (body tokens) k reason := by
  obtain ⟨p, t, s, hs, ⟨e, ha⟩ | ⟨why, hr⟩⟩ := exists_stops limit tokens
  · obtain ⟨r', hlog, hprog, hp⟩ := parse_of_accept hs ha r
    rcases hs.cases with ⟨ht, -⟩ | ⟨ht, -⟩
    · left
      simp only [ht, ↓reduceIte] at hp
      exact ⟨e, r', hp, hlog⟩
    · right
      simp only [ht, Bool.false_eq_true, ↓reduceIte] at hp
      have hstuck := Assembly.not_viable_of_step hs.taken ha (by simp) (by simp)
      refine ⟨_, p.length, t, _, hp, hs.getElem?, hs.isEnd_iff, ?_,
        misplaced_of_stops hs (Assembly.continues_of_accept hs.taken ha) (by decide) (fun _ => hstuck) ?_⟩
      · rw [addError, hlog, hprog]
        rfl
      · intro h
        rw [ht] at h
        cases h
  · obtain ⟨r', hlog, hprog, hp⟩ := parse_of_reject hs hr r
    have hne : why ≠ .tooDeep := by
      rintro rfl
      exact hd (tooDeep_of_reject hs hr)
    right
    have hstuck := Assembly.not_viable_of_step hs.taken hr (by simpa using hne) (by simp)
    refine ⟨_, p.length, t, _, hp, hs.getElem?, hs.isEnd_iff, ?_,
      misplaced_of_stops hs (Assembly.continues_of_reject hs.taken hr hne) hne (fun _ => hstuck) ?_⟩
    · rw [addError, hlog, hprog]
    · rintro - rfl
      -- no token is rejected because the expression should have ended
      cases hr

/-- In `(! true` followed by a plus and the end of the input, the mistake is at the end. -/
theorem parse_log_open :
    let tokens := [Kind.leftParen, .bang, .trueWord, .plus, .endOfInput].map Kind.token
    let r : ExprReader := { program := "(!true+" }
    ¬ TooDeep 100 tokens ∧
      ((∃ e r', r.parse 100 tokens = (.ok (some e), r') ∧ r'.log = r.log) ∨
        ∃ r' k t reason, r.parse 100 tokens = (.ok none, r') ∧ (terminated tokens)[k]? = some t ∧
          (t.isEnd = true ↔ k = (body tokens).length) ∧
          r'.log = r.log ++ [⟨r.program, errorSpan t, .malformed t reason⟩] ∧
          Misplaced (body tokens) k reason) := by
  intro tokens r
  have hd : ¬ TooDeep 100 tokens := by
    rintro ⟨t, ht⟩
    cases ht
  exact ⟨hd, parse_log r hd⟩

end ExprReader

end LoxSyntax
