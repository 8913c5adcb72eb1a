import LoxSyntax.Proofs.Expr.Stack

/-!
# Taking tokens one at a time

A token either goes on with the assembly of a whole expression, ends it, or has no place in it; `StepsTo` has one rule
for each case.  A run takes tokens as long as they go on, and an assembly holds exactly the tokens that were taken.

* `step_eq_iff`: the rules describe the step.
* `shiftAll?_cases`, `run_shiftAll?`: a run takes the tokens before the first that does not go on.
* `stateHolds_step`, `stateHolds_shiftAll?`: what one step and what a run of steps holds.
* `spells_of_accept`: what is accepted is an expression spelled by the tokens that were taken.
-/

namespace LoxSyntax.Assembly

variable {limit : Nat}

/-- What a token does to the assembly of a whole expression. -/
inductive StepsTo (limit : Nat) : Assembly → Token → Step → Prop
  | tooDeep {fs : List Frame} {t : Token} (hd : limit < depth fs)
      (hu : t.kind ∈ Kind.prefixOperators → limit + 1 < depth fs) : StepsTo limit ⟨fs, none⟩ t (.reject .tooDeep)
  | unary {fs : List Frame} {t : Token} (hd : depth fs ≤ limit + 1) (ht : t.kind ∈ Kind.prefixOperators) :
      StepsTo limit ⟨fs, none⟩ t (.shift ⟨.unary t :: fs, none⟩)
  | paren {fs : List Frame} {t : Token} (hd : depth fs ≤ limit) (ht : t.kind = .leftParen) :
      StepsTo limit ⟨fs, none⟩ t (.shift ⟨.paren t :: fs, none⟩)
  | literal {fs : List Frame} {t : Token} {v : Literal} (hd : depth fs ≤ limit) (ht : t.Denotes v) :
      StepsTo limit ⟨fs, none⟩ t (.shift ⟨fs, some (.literal t.span v)⟩)
  | expectExpression {fs : List Frame} {t : Token} (hd : depth fs ≤ limit) (hu : t.kind ∉ Kind.prefixOperators)
      (hp : t.kind ≠ .leftParen) (hv : ∀ v, ¬ t.Denotes v) : StepsTo limit ⟨fs, none⟩ t (.reject .expectExpression)
  | binary {fs : List Frame} {e : Expr Span} {t : Token} {level : Nat} (ht : t.kind ∈ Kind.operatorsOf level) :
      StepsTo limit ⟨fs, some e⟩ t (.shift ⟨.binary (close level fs e).2 t level :: (close level fs e).1, none⟩)
  | grouping {fs fs' : List Frame} {e e' : Expr Span} {t opening : Token}
      (hc : close 0 fs e = (.paren opening :: fs', e')) (ht : t.kind = .rightParen) :
      StepsTo limit ⟨fs, some e⟩ t (.shift ⟨fs', some (makeGrouping opening e' t)⟩)
  | expectClosing {fs fs' : List Frame} {e e' : Expr Span} {t opening : Token}
      (hb : ∀ level, t.kind ∉ Kind.operatorsOf level) (hc : close 0 fs e = (.paren opening :: fs', e'))
      (ht : t.kind ≠ .rightParen) : StepsTo limit ⟨fs, some e⟩ t (.reject .expectClosing)
  | accept {fs : List Frame} {e e' : Expr Span} {t : Token} (hb : ∀ level, t.kind ∉ Kind.operatorsOf level)
      (hc : close 0 fs e = ([], e')) : StepsTo limit ⟨fs, some e⟩ t (.accept e')

/-! ### One token -/

theorem floor_loosestLevel (fs : List Frame) : floor loosestLevel fs = loosestLevel := by
  induction fs with
  | nil => rfl
  | cons f fs ih => cases f <;> first | rfl | exact ih

private theorem floor_le_level {k : Kind} {level : Nat} (h : k ∈ Kind.operatorsOf level) (fs : List Frame) :
    floor loosestLevel fs ≤ level := by
  rw [floor_loosestLevel]
  exact (Kind.level_of_mem_operatorsOf h).1

theorem settled?_loosestLevel (s : Assembly) : s.settled? loosestLevel = none := by
  unfold settled?
  split
  · rfl
  · simp [loosestLevel, prefixLevel]

private theorem stepsTo_stepOperand (fs : List Frame) (t : Token) :
    StepsTo limit ⟨fs, none⟩ t (stepOperand limit loosestLevel fs t) := by
  unfold stepOperand
  split
  · rename_i hu
    have ht : t.kind ∈ Kind.prefixOperators := by
      simp only [Bool.and_eq_true] at hu
      exact Kind.isPrefixOperator_iff.1 hu.1
    split
    · rename_i hd
      exact .tooDeep (by omega) fun _ => hd
    · rename_i hd
      exact .unary (Nat.le_of_not_lt hd) ht
  · rename_i hu
    have hu : t.kind ∉ Kind.prefixOperators := by
      rw [← Kind.isPrefixOperator_iff]
      intro h
      exact hu (by simp [h, loosestLevel, prefixLevel])
    split
    · rename_i hd
      exact .tooDeep hd fun h => absurd h hu
    · rename_i hd
      have hd := Nat.le_of_not_lt hd
      split
      · rename_i hp
        exact .paren hd hp
      · rename_i hp
        split
        · rename_i v hv
          exact .literal hd (Token.value?_eq_some_iff.1 hv)
        · rename_i hv
          refine .expectExpression hd hu hp fun v h => ?_
          rw [Token.value?_eq_some_iff.2 h] at hv
          cases hv

private theorem stepsTo_stepOperator (fs : List Frame) (e : Expr Span) (t : Token) :
    StepsTo limit ⟨fs, some e⟩ t (stepOperator loosestLevel fs e t) := by
  unfold stepOperator
  split
  · rename_i level h
    have ht := Kind.binaryLevel?_eq_some_iff.1 h
    simp only [floor_le_level ht, ↓reduceIte]
    exact .binary ht
  · rename_i h
    have hb : ∀ level, t.kind ∉ Kind.operatorsOf level := by
      intro level ht
      rw [Kind.binaryLevel?_eq_some_iff.2 ht] at h
      cases h
    unfold stepClosing
    rcases hc : close 0 fs e with ⟨fs', e'⟩
    have hz := close_zero fs e
    rw [hc] at hz
    rcases hz with rfl | ⟨opening, fs'', rfl⟩
    · exact .accept hb hc
    · dsimp only
      split
      · rename_i ht
        exact .grouping hc ht
      · rename_i ht
        exact .expectClosing hb hc ht

theorem stepsTo_step (limit : Nat) (s : Assembly) (t : Token) : StepsTo limit s t (s.step limit loosestLevel t) := by
  obtain ⟨fs, _ | e⟩ := s
  · exact stepsTo_stepOperand fs t
  · exact stepsTo_stepOperator fs e t

private theorem binaryLevel?_eq_none {k : Kind} (h : ∀ level, k ∉ Kind.operatorsOf level) : k.binaryLevel? = none :=
  Option.eq_none_iff_forall_ne_some.2 fun level hl => h level (Kind.binaryLevel?_eq_some_iff.1 hl)

private theorem isPrefixOperator_eq_false {k : Kind} (h : k ∉ Kind.prefixOperators) : k.isPrefixOperator = false := by
  rw [← Bool.not_eq_true, Kind.isPrefixOperator_iff]
  exact h

private theorem step_of_stepsTo {s : Assembly} {t : Token} {a : Step} (h : StepsTo limit s t a) :
    s.step limit loosestLevel t = a := by
  cases h with
  | tooDeep hd hu =>
    simp only [step, stepOperand, hd, ↓reduceIte]
    split
    · rename_i h
      rw [if_pos (hu (Kind.isPrefixOperator_iff.1 (Bool.and_eq_true_iff.1 h).1))]
    · rfl
  | unary hd ht =>
    simp [step, stepOperand, Nat.not_lt.2 hd, Kind.isPrefixOperator_iff.2 ht, loosestLevel, prefixLevel]
  | paren hd ht => simp [step, stepOperand, Nat.not_lt.2 hd, ht, Kind.isPrefixOperator]
  | literal hd ht =>
    obtain ⟨hu, hp, -⟩ := ht.kind_cases
    simp [step, stepOperand, Nat.not_lt.2 hd, hu, hp, Token.value?_eq_some_iff.2 ht]
  | expectExpression hd hu hp hv =>
    have hn : t.value? = none := Option.eq_none_iff_forall_ne_some.2 fun v h => hv v (Token.value?_eq_some_iff.1 h)
    simp [step, stepOperand, Nat.not_lt.2 hd, isPrefixOperator_eq_false hu, hp, hn]
  | binary ht => simp [step, stepOperator, Kind.binaryLevel?_eq_some_iff.2 ht, floor_le_level ht]
  | grouping hc ht => simp [step, stepOperator, stepClosing, ht, Kind.binaryLevel?, hc]
  | expectClosing hb hc ht => simp [step, stepOperator, stepClosing, binaryLevel?_eq_none hb, hc, ht]
  | accept hb hc => simp [step, stepOperator, stepClosing, binaryLevel?_eq_none hb, hc]

theorem step_eq_iff {s : Assembly} {t : Token} {a : Step} : s.step limit loosestLevel t = a ↔ StepsTo limit s t a := by
  constructor
  · rintro rfl
    exact stepsTo_step limit s t
  · exact step_of_stepsTo

theorem StepsTo.unique {s : Assembly} {t : Token} {a b : Step} (ha : StepsTo limit s t a)
    (hb : StepsTo limit s t b) : a = b :=
  (step_of_stepsTo ha).symm.trans (step_of_stepsTo hb)

theorem not_operator_of_isEnd {t : Token} (h : t.isEnd = true) (level : Nat) :
    t.kind ∉ Kind.operatorsOf level := by
  intro ht
  have hk : t.kind = .endOfInput := by simpa [Token.isEnd] using h
  have hb := Kind.binaryLevel?_eq_some_iff.2 ht
  rw [hk] at hb
  cases hb

theorem run_of_accept {s : Assembly} {t : Token} {e : Expr Span} (h : StepsTo limit s t (.accept e)) (ts : List Token) :
    run limit loosestLevel s (t :: ts) = (.accepted e, t :: ts) := by
  rw [run, settled?_loosestLevel, step_of_stepsTo h]

theorem run_of_reject {s : Assembly} {t : Token} {why : Rejection} (h : StepsTo limit s t (.reject why))
    (ts : List Token) : run limit loosestLevel s (t :: ts) = (.rejected t why, t :: ts) := by
  rw [run, settled?_loosestLevel, step_of_stepsTo h]

/-! ### Taking tokens -/

/-- The assembly that some tokens lead to, if all of them go on with a whole expression. -/
def shiftAll? (limit : Nat) (s : Assembly) : List Token → Option Assembly
  | [] => some s
  | t :: ts =>
    match s.step limit loosestLevel t with
    | .shift s' => s'.shiftAll? limit ts
    | _ => none

theorem shiftAll?_cons_eq_some_iff {s s' : Assembly} {t : Token} {ts : List Token} :
    s.shiftAll? limit (t :: ts) = some s' ↔ ∃ r, StepsTo limit s t (.shift r) ∧ r.shiftAll? limit ts = some s' := by
  constructor
  · intro h
    rw [shiftAll?] at h
    split at h
    · rename_i r hr
      exact ⟨r, step_eq_iff.1 hr, h⟩
    · cases h
  · rintro ⟨r, hr, h⟩
    rw [shiftAll?, step_eq_iff.2 hr]
    exact h

theorem shiftAll?_append (s : Assembly) (p q : List Token) :
    s.shiftAll? limit (p ++ q) = (s.shiftAll? limit p).bind fun s' => s'.shiftAll? limit q := by
  induction p generalizing s with
  | nil => rfl
  | cons t p ih =>
    simp only [List.cons_append, shiftAll?]
    split
    · exact ih _
    · rfl

theorem run_shiftAll? {s s' : Assembly} {p : List Token} (h : s.shiftAll? limit p = some s') (ts : List Token) :
    run limit loosestLevel s (p ++ ts) = run limit loosestLevel s' ts := by
  induction p generalizing s with
  | nil =>
    cases h
    rfl
  | cons t p ih =>
    obtain ⟨r, hr, h⟩ := shiftAll?_cons_eq_some_iff.1 h
    rw [List.cons_append, run, settled?_loosestLevel, step_eq_iff.2 hr]
    exact ih h

/-- Tokens are taken as long as they go on: all of them, or those before the first that does not. -/
theorem shiftAll?_cases (limit : Nat) (s : Assembly) (ts : List Token) :
    (∃ s', s.shiftAll? limit ts = some s') ∨
      ∃ p t q s', ts = p ++ t :: q ∧ s.shiftAll? limit p = some s' ∧
        ((∃ e, StepsTo limit s' t (.accept e)) ∨ ∃ why, StepsTo limit s' t (.reject why)) := by
  induction ts generalizing s with
  | nil => exact Or.inl ⟨s, rfl⟩
  | cons t ts ih =>
    have hs := stepsTo_step limit s t
    cases hstep : s.step limit loosestLevel t with
    | shift r =>
      rw [hstep] at hs
      rcases ih r with ⟨s', hs'⟩ | ⟨p, u, q, s', rfl, hp, hu⟩
      · exact Or.inl ⟨s', shiftAll?_cons_eq_some_iff.2 ⟨r, hs, hs'⟩⟩
      · exact Or.inr ⟨t :: p, u, q, s', rfl, shiftAll?_cons_eq_some_iff.2 ⟨r, hs, hp⟩, hu⟩
    | accept e =>
      rw [hstep] at hs
      exact Or.inr ⟨[], t, ts, s, rfl, rfl, Or.inl ⟨e, hs⟩⟩
    | reject why =>
      rw [hstep] at hs
      exact Or.inr ⟨[], t, ts, s, rfl, rfl, Or.inr ⟨why, hs⟩⟩

/-! ### Soundness -/

/-- An assembly that holds some tokens; a complete operand is a literal or in parentheses. -/
inductive StateHolds : Assembly → List Token → Prop
  | awaiting {fs : List Frame} {p : List Token} (h : FramesHold fs p) : StateHolds ⟨fs, none⟩ p
  | complete {fs : List Frame} {e : Expr Span} {p : List Token} (h : Holds fs e primaryLevel p) :
      StateHolds ⟨fs, some e⟩ p

theorem stateHolds_step {s s' : Assembly} {t : Token} {p : List Token} (hs : StateHolds s p)
    (h : StepsTo limit s t (.shift s')) : StateHolds s' (p ++ [t]) := by
  cases h with
  | unary hd ht =>
    cases hs with
    | awaiting hs => exact .awaiting (.unary ht hs)
  | paren hd ht =>
    cases hs with
    | awaiting hs => exact .awaiting (.paren ht hs)
  | literal hd ht =>
    cases hs with
    | awaiting hs => exact .complete ⟨.literal _ _, hs.admits_primary, _, _, hs, .literal _ ht, rfl⟩
  | @binary fs e _ level ht =>
    cases hs with
    | complete hs =>
      -- the new frame stands on what is left when everything of its level is finished
      have hl := (Kind.level_of_mem_operatorsOf ht).2
      obtain ⟨m, hm, hc⟩ := holds_close hs (Nat.le_trans hl (by decide))
      have ha := admits_close (Nat.le_trans hl (by decide)) fs e
      obtain ⟨u, v, hfs, hv, rfl⟩ := hc.tokens
      rw [List.append_assoc]
      exact .awaiting (.binary ht hc.level hm hv hfs ha)
  | grouping hc ht =>
    cases hs with
    | complete hs =>
      obtain ⟨m, -, hcl⟩ := holds_close hs (Nat.zero_le _)
      rw [hc] at hcl
      exact .complete (hcl.makeGrouping ht)

theorem stateHolds_shiftAll? {s s' : Assembly} {p q : List Token} (hs : StateHolds s p)
    (h : s.shiftAll? limit q = some s') : StateHolds s' (p ++ q) := by
  induction q generalizing s p with
  | nil =>
    cases h
    rwa [List.append_nil]
  | cons t q ih =>
    obtain ⟨r, hr, h⟩ := shiftAll?_cons_eq_some_iff.1 h
    have := ih (stateHolds_step hs hr) h
    rwa [List.append_assoc] at this

theorem stateHolds_start : StateHolds {} [] := .awaiting .nil

/-- What is accepted is an expression that is spelled by the tokens held. -/
theorem spells_of_accept {s : Assembly} {t : Token} {e : Expr Span} {p : List Token} (hs : StateHolds s p)
    (h : StepsTo limit s t (.accept e)) : ∃ n, e.HasLevel n ∧ e.Spells p := by
  cases h with
  | accept hb hc =>
    cases hs with
    | complete hs =>
      obtain ⟨m, -, hcl⟩ := holds_close hs (Nat.zero_le _)
      rw [hc] at hcl
      obtain ⟨hn, -, u, v, hfs, hv, rfl⟩ := hcl
      cases hfs
      exact ⟨m, hn, hv⟩

end LoxSyntax.Assembly
