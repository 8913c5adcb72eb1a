import LoxSyntax.Proofs.Expr.Shift

/-!
# Acceptance of sentences

The tokens of an expression are taken from any frames on which the expression may stand, and once they are taken the
operators that belong to the expression can be finished.  Only the depth of the frames can be in the way.

* `recognizes_of_spells`: the statement about one expression, by induction on the expression.
* `accepts_of_spells`: a whole expression is accepted at the token that ends the input.
* `step_of_viable`: a token after which a sentence can go on is taken.
-/

namespace LoxSyntax.Assembly

variable {α : Type} {limit : Nat}

/-- One of the tokens is met when the frames are too deep. -/
def Overflows (limit : Nat) (s : Assembly) (w : List Token) : Prop :=
  ∃ p t q s', w = p ++ t :: q ∧ s.shiftAll? limit p = some s' ∧ StepsTo limit s' t (.reject .tooDeep)

/-- An assembly in which the operators above the frames `fs` make up the expression `e` when they are finished. -/
def Settles (s : Assembly) (fs : List Frame) (e : Expr Span) (n : Nat) : Prop :=
  ∃ e₀, s.operand? = some e₀ ∧ ∀ k ≤ n, close k s.pending e₀ = close k fs e

/-! ### Overflow -/

theorem Overflows.append {s : Assembly} {w : List Token} (h : Overflows limit s w) (q : List Token) :
    Overflows limit s (w ++ q) := by
  obtain ⟨p, t, r, s', rfl, hp, hs⟩ := h
  exact ⟨p, t, r ++ q, s', by simp, hp, hs⟩

theorem not_overflows_nil (s : Assembly) : ¬ Overflows limit s [] := by
  rintro ⟨p, t, q, s', h, -⟩
  exact absurd h (by simp)

theorem overflows_cons_iff {s : Assembly} {t : Token} {w : List Token} :
    Overflows limit s (t :: w) ↔
      StepsTo limit s t (.reject .tooDeep) ∨ ∃ r, StepsTo limit s t (.shift r) ∧ Overflows limit r w := by
  constructor
  · rintro ⟨_ | ⟨u, p⟩, t', q, s', h, hp, hs⟩
    · cases h
      cases hp
      exact Or.inl hs
    · cases h
      obtain ⟨r, hr, hp⟩ := shiftAll?_cons_eq_some_iff.1 hp
      exact Or.inr ⟨r, hr, p, t', q, s', rfl, hp, hs⟩
  · rintro (h | ⟨r, hr, p, t', q, s', rfl, hp, hs⟩)
    · exact ⟨[], t, w, s, rfl, rfl, h⟩
    · exact ⟨t :: p, t', q, s', rfl, shiftAll?_cons_eq_some_iff.2 ⟨r, hr, hp⟩, hs⟩

theorem overflows_append_iff {s s' : Assembly} {p w : List Token} (hp : s.shiftAll? limit p = some s') :
    Overflows limit s (p ++ w) ↔ Overflows limit s' w := by
  induction p generalizing s with
  | nil =>
    cases hp
    rfl
  | cons t p ih =>
    obtain ⟨r, hr, hp⟩ := shiftAll?_cons_eq_some_iff.1 hp
    rw [List.cons_append, overflows_cons_iff, ← ih hp]
    constructor
    · rintro (h | ⟨r', hr', h⟩)
      · cases hr.unique h
      · cases hr.unique hr'
        exact h
    · intro h
      exact Or.inr ⟨r, hr, h⟩

theorem run_of_overflows {s : Assembly} {w : List Token} (h : Overflows limit s w) (rest : List Token) :
    ∃ t, (run limit loosestLevel s (w ++ rest)).1 = .rejected t .tooDeep := by
  obtain ⟨p, t, q, s', rfl, hp, hs⟩ := h
  refine ⟨t, ?_⟩
  rw [List.append_assoc, run_shiftAll? hp, List.cons_append, run_of_reject hs]

theorem overflows_of_reject {fs : List Frame} {t : Token} (h : StepsTo limit ⟨fs, none⟩ t (.reject .tooDeep))
    (w : List Token) : Overflows limit ⟨fs, none⟩ (t :: w) :=
  ⟨[], t, w, ⟨fs, none⟩, rfl, rfl, h⟩

theorem shiftAll?_singleton {s s' : Assembly} {t : Token} (h : StepsTo limit s t (.shift s')) :
    s.shiftAll? limit [t] = some s' :=
  shiftAll?_cons_eq_some_iff.2 ⟨s', h, rfl⟩

/-- A frame that an operator of a level does not finish stays as it is. -/
theorem close_of_admits {fs : List Frame} {n : Nat} (ha : Admits fs n) (hn : n < prefixLevel) (e : Expr Span) :
    close n fs e = (fs, e) := by
  cases fs with
  | nil => rfl
  | cons f fs =>
    cases f with
    | unary op => exact absurd ha (Nat.not_le.2 hn)
    | binary l op m =>
      have hm : ¬ n ≤ m := Nat.not_le.2 ha
      simp [close, hm]
    | paren o => rfl

/-! ### One expression -/

/-- From the frames `fs` the tokens `w` are taken and then make up the expression `e` of level `n`. -/
def Recognizes (limit : Nat) (fs : List Frame) (e : Expr α) (n : Nat) (w : List Token) : Prop :=
  Overflows limit ⟨fs, none⟩ w ∨
    ∃ s e', Assembly.shiftAll? limit ⟨fs, none⟩ w = some s ∧ e'.shape = e.shape ∧ Settles s fs e' n

/-- A token that is no prefix operator is met when the frames are too deep, or is taken. -/
private theorem recognizes_of_depth {fs : List Frame} {e : Expr α} {n : Nat} {t : Token} {w : List Token}
    (hu : t.kind ∉ Kind.prefixOperators) (h : depth fs ≤ limit → Recognizes limit fs e n (t :: w)) :
    Recognizes limit fs e n (t :: w) := by
  rcases Nat.lt_or_ge limit (depth fs) with hd | hd
  · exact Or.inl (overflows_of_reject (.tooDeep hd fun ht => absurd ht hu) w)
  · exact h hd

private theorem recognizes_literal (fs : List Frame) (i : α) {v : Literal} {t : Token} (ht : t.Denotes v) :
    Recognizes limit fs (.literal i v) primaryLevel [t] := by
  have hu : t.kind ∉ Kind.prefixOperators := by
    rw [← Kind.isPrefixOperator_iff, ht.kind_cases.1]
    exact Bool.false_ne_true
  refine recognizes_of_depth hu fun hd => ?_
  exact Or.inr ⟨_, .literal t.span v, shiftAll?_singleton (.literal hd ht), rfl, _, rfl, fun k _ => rfl⟩

private theorem recognizes_unary {fs : List Frame} (i : α) {op : Token} {e : Expr α} {n : Nat} {w : List Token}
    (hop : op.kind ∈ Kind.prefixOperators) (hn : prefixLevel ≤ n) (h : Recognizes limit (.unary op :: fs) e n w) :
    Recognizes limit fs (.unary i op e) prefixLevel (op :: w) := by
  rcases Nat.lt_or_ge (limit + 1) (depth fs) with hd | hd
  · exact Or.inl (overflows_of_reject (.tooDeep (by omega) fun _ => hd) w)
  · have hs := shiftAll?_singleton (StepsTo.unary hd hop)
    rcases h with h | ⟨s, e', hw, he, e₀, ho, hc⟩
    · exact Or.inl ((overflows_append_iff hs).2 h)
    · refine Or.inr ⟨s, makeUnary op e', ?_, ?_, e₀, ho, ?_⟩
      · rw [← List.singleton_append, shiftAll?_append, hs]
        exact hw
      · exact congrArg (Expr.unary () op) he
      · intro k hk
        rw [hc k (Nat.le_trans hk hn)]
        simp [close, hk]

private theorem recognizes_grouping {fs : List Frame} (i : α) {e : Expr α} {n : Nat} {w : List Token}
    {opening closing : Token} (ho : opening.kind = .leftParen) (hcl : closing.kind = .rightParen)
    (h : Recognizes limit (.paren opening :: fs) e n w) :
    Recognizes limit fs (.grouping i e) primaryLevel (opening :: w ++ [closing]) := by
  refine recognizes_of_depth (w := w ++ [closing]) (by simp [ho, Kind.prefixOperators]) fun hd => ?_
  have hs := shiftAll?_singleton (StepsTo.paren hd ho)
  rw [← List.singleton_append, ← List.append_assoc]
  rcases h with h | ⟨⟨gs, _⟩, e', hw, he, e₀, rfl, hc⟩
  · exact Or.inl (((overflows_append_iff hs).2 h).append _)
  · have hc : close 0 gs e₀ = (.paren opening :: fs, e') := hc 0 (Nat.zero_le _)
    let e'' := makeGrouping opening e' closing
    refine Or.inr ⟨⟨fs, some e''⟩, e'', ?_, ?_, e'', rfl, fun k _ => rfl⟩
    · rw [shiftAll?_append, shiftAll?_append, hs, Option.bind_some, hw]
      exact shiftAll?_singleton (.grouping hc hcl)
    · exact congrArg (Expr.grouping ()) he

private theorem recognizes_binary {fs : List Frame} (i : α) {l r : Expr α} {op : Token} {level m n : Nat}
    {v w : List Token} (hop : op.kind ∈ Kind.operatorsOf level) (ha : Admits fs level) (hm : level ≤ m)
    (hn : level < n) (hl : Recognizes limit fs l m v)
    (hr : ∀ l' : Expr Span, Recognizes limit (.binary l' op level :: fs) r n w) :
    Recognizes limit fs (.binary i l op r) level (v ++ op :: w) := by
  rcases hl with hl | ⟨⟨gs, _⟩, l', hv, hl', l₀, rfl, hcl⟩
  · exact Or.inl (hl.append _)
  · -- the operator finishes exactly what belongs to its left operand
    have hlt : level < prefixLevel := Nat.lt_of_le_of_lt (Kind.level_of_mem_operatorsOf hop).2 (by decide)
    have hc : close level gs l₀ = (fs, l') := (hcl level hm).trans (close_of_admits ha hlt l')
    have hstep : StepsTo limit ⟨gs, some l₀⟩ op (.shift ⟨.binary l' op level :: fs, none⟩) := by
      have hb : StepsTo limit ⟨gs, some l₀⟩ op _ := .binary hop
      rwa [hc] at hb
    have hs : Assembly.shiftAll? limit ⟨fs, none⟩ (v ++ [op]) = some ⟨.binary l' op level :: fs, none⟩ := by
      rw [shiftAll?_append, hv]
      exact shiftAll?_singleton hstep
    rw [← List.singleton_append, ← List.append_assoc]
    rcases hr l' with hr | ⟨s, r', hw, hr', r₀, ho, hcr⟩
    · exact Or.inl ((overflows_append_iff hs).2 hr)
    · refine Or.inr ⟨s, makeBinary l' op r', ?_, ?_, r₀, ho, ?_⟩
      · rw [shiftAll?_append, hs]
        exact hw
      · show Expr.binary () l'.shape op r'.shape = .binary () l.shape op r.shape
        rw [hl', hr']
      · intro k hk
        rw [hcr k (Nat.le_trans hk (Nat.le_of_lt hn))]
        simp [close, hk]

/-- The tokens of an expression are recognized from any frames on which the expression may stand. -/
theorem recognizes_of_spells {e : Expr α} {n : Nat} {w : List Token} (hn : e.HasLevel n) (hw : e.Spells w)
    {fs : List Frame} (ha : Admits fs n) : Recognizes limit fs e n w := by
  -- the frames vary: an operand stands on the frame of its operator
  induction hn generalizing w fs with
  | literal i v =>
    cases hw with
    | literal _ ht => exact recognizes_literal fs i ht
  | unary i hop _ hn ih =>
    cases hw with
    | unary _ _ he => exact recognizes_unary i hop hn (ih he hn)
  | binary i hop _ hm _ hn ihl ihr =>
    cases hw with
    | binary _ _ hl hr =>
      have hlr := ihl hl (ha.mono hm)
      exact recognizes_binary i hop ha hm hn hlr fun l' => ihr hr hn
  | grouping i _ ih =>
    cases hw with
    | grouping _ ho hc he => exact recognizes_grouping i ho hc (ih he trivial)

/-! ### Whole expressions -/

/-- Where a whole expression has been taken, the pending operators can be finished and leave no frame. -/
theorem close_of_isSentence {s : Assembly} {p : List Token} (hs : Assembly.shiftAll? limit {} p = some s)
    (hp : Expr.IsSentence p) : ∃ fs e e', s = ⟨fs, some e⟩ ∧ close 0 fs e = ([], e') := by
  obtain ⟨e, n, hn, hw⟩ := hp
  rcases recognizes_of_spells hn hw (show Admits [] n from trivial) with h | ⟨⟨fs, _⟩, e', hs', -, e₀, rfl, hc⟩
  · rw [← List.append_nil p, overflows_append_iff hs] at h
    exact absurd h (not_overflows_nil s)
  · rw [hs] at hs'
    cases hs'
    exact ⟨fs, e₀, e', rfl, hc 0 (Nat.zero_le _)⟩

/-- The tokens of a whole expression are taken, and it is accepted where the input ends. -/
theorem accepts_of_spells {e : Expr α} {n : Nat} {w : List Token} (hn : e.HasLevel n) (hw : e.Spells w) {t : Token}
    (ht : t.isEnd = true) :
    Overflows limit {} w ∨
      ∃ s e', Assembly.shiftAll? limit {} w = some s ∧ e'.shape = e.shape ∧ StepsTo limit s t (.accept e') := by
  rcases recognizes_of_spells hn hw (show Admits [] n from trivial) with h | ⟨⟨fs, _⟩, e', hs, he, e₀, rfl, hc⟩
  · exact Or.inl h
  · exact Or.inr ⟨⟨fs, some e₀⟩, e', hs, he, .accept (not_operator_of_isEnd ht) (hc 0 (Nat.zero_le _))⟩

/-- A token after which a sentence can go on is taken, unless the frames are too deep. -/
theorem step_of_viable {s : Assembly} {p : List Token} {t : Token} (hs : Assembly.shiftAll? limit {} p = some s)
    (hv : Expr.Viable (p ++ [t])) : (∃ r, StepsTo limit s t (.shift r)) ∨ StepsTo limit s t (.reject .tooDeep) := by
  obtain ⟨q, e, n, hn, hw⟩ := hv
  rw [List.append_assoc, List.singleton_append] at hw
  rcases recognizes_of_spells hn hw (show Admits [] n from trivial) with h | ⟨s', e', hs', -⟩
  · rw [overflows_append_iff hs, overflows_cons_iff] at h
    rcases h with h | ⟨r, hr, -⟩
    · exact Or.inr h
    · exact Or.inl ⟨r, hr⟩
  · rw [shiftAll?_append, hs, Option.bind_some] at hs'
    obtain ⟨r, hr, -⟩ := shiftAll?_cons_eq_some_iff.1 hs'
    exact Or.inl ⟨r, hr⟩

end LoxSyntax.Assembly
