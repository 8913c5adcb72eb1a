import LoxSyntax.Proofs.Expr.Shift
import LoxSyntax.Expr.Reader

/-!
# Reading an expression by operations

An expression can also be read by the other operations of a reader.  They ask for the kinds of tokens that may come
next, take the token before the place when one of these has been accepted, and note a mistake at the token at the place
when none has.

* `accept_cons`, `consume_eq_check`: accepting and consuming is checking and advancing.
* `close_close`, `floor_close`: operators that are finished in two steps.
* `stepOperator_of_mem`, `stepOperator_of_not_mem`: what comes after an operand.
* `resume_of_some`: an assembly goes on by one step.
* `resume_operand`, `resume_operator`: an assembly goes on as the operations say.
-/

namespace LoxSyntax

namespace ExprReader

/-- One operation after the other, if the first is not refused. -/
def Outcome.andThen {α β : Type} (o : Outcome α) (next : α → ExprReader → Outcome β) : Outcome β :=
  match o with
  | (.ok a, r) => next a r
  | (.error e, r) => (.error e, r)

/-- Note a mistake at the token at the place. -/
def reject {α : Type} (r : ExprReader) (why : Rejection) : Outcome α :=
  r.peek.andThen fun t r => (.error .mistaken, r.addError t why.message)

variable {r : ExprReader} {t : Token}

/-! ### Operations in terms of others -/

/-- A reader behind the token at its place. -/
def moved (r : ExprReader) : ExprReader := { r with cursor := r.cursor.next }

theorem previous_moved (ht : r.peek? = some t) : r.moved.previous = (.ok t, r.moved) := by
  obtain ⟨rest, hrest⟩ := List.head?_eq_some_iff.1 ht
  have hnext : r.cursor.next.before.head? = some t := by
    unfold Cursor.next
    split
    · rename_i h
      rw [h] at hrest
      cases hrest
    · rename_i h
      rw [h] at hrest
      cases hrest
      rfl
  rw [previous, previous?, moved, hnext]
  rfl

theorem advance_of_not_end (ht : r.peek? = some t) (hend : t.isEnd = false) : r.advance = (.ok t, r.moved) := by
  rw [advance, ht]
  dsimp only
  rw [hend, if_neg Bool.false_ne_true]
  exact previous_moved ht

theorem accept_nil (r : ExprReader) : r.accept [] = (.ok false, r) := rfl

theorem accept_of_none (ht : r.peek? = none) {kinds : List Kind} (hkinds : kinds ≠ []) :
    r.accept kinds = (.error .noToken, r) := by
  rw [accept, List.isEmpty_eq_false_iff.2 hkinds, ht]
  rfl

/-- A token that does not end the input is accepted if it has one of the kinds. -/
theorem accept_of_some (ht : r.peek? = some t) {kinds : List Kind} (hkinds : .endOfInput ∉ kinds) :
    r.accept kinds = if t.kind ∈ kinds then (.ok true, r.moved) else (.ok false, r) := by
  cases kinds with
  | nil => rw [if_neg List.not_mem_nil, accept_nil]
  | cons kind kinds =>
    have hend : t.kind ∈ kind :: kinds → t.isEnd = false := by
      intro hmem
      rw [Token.isEnd, beq_eq_false_iff_ne]
      exact fun e => hkinds (e ▸ hmem)
    rw [accept, ht]
    by_cases hmem : t.kind ∈ kind :: kinds
    · simp [hmem, hend hmem, moved]
    · simp [hmem]

/-- Kinds are checked one after the other, and the reader advances at the first that fits. -/
theorem accept_cons (r : ExprReader) (kind : Kind) (kinds : List Kind) :
    r.accept (kind :: kinds) = (r.check kind).andThen fun found r =>
      if found then r.advance.andThen fun _ r => (.ok true, r) else r.accept kinds := by
  rcases ht : r.peek? with _ | t
  · rw [accept, check, ht]
    rfl
  · rw [accept, check, ht]
    dsimp only [List.isEmpty_cons, Outcome.andThen]
    cases hend : t.isEnd with
    | true =>
      simp only [Bool.not_true, Bool.false_and, Bool.false_eq_true, if_false]
      rw [accept, ht]
      dsimp only
      rw [hend]
      cases kinds <;> rfl
    | false =>
      rw [advance_of_not_end ht hend, accept, ht]
      dsimp only
      rw [hend]
      by_cases hkind : t.kind = kind
      · simp [hkind, moved]
      · cases kinds <;> simp [hkind]

/-- A token is consumed when its kind is checked first, and else it is a mistake. -/
theorem consume_eq_check (r : ExprReader) (kind : Kind) (reason : String) :
    r.consume kind reason = (r.check kind).andThen fun found r =>
      if found then r.advance else r.peek.andThen fun t r => (.error .mistaken, r.addError t reason) := by
  rcases ht : r.peek? with _ | t
  · rw [consume, check, ht]
    rfl
  · rw [consume, check, ht]
    dsimp only [Outcome.andThen]
    split
    · rfl
    · rw [peek, ht]
      rfl

end ExprReader

/-! ### Frames that are finished -/

namespace Assembly

variable {limit base : Nat}

theorem length_run_le (s : Assembly) (ts : List Token) : (run limit base s ts).2.length ≤ ts.length := by
  induction ts generalizing s with
  | nil =>
    rw [run]
    split <;> exact Nat.le_refl _
  | cons t ts ih =>
    rw [run]
    split
    · exact Nat.le_refl _
    · split
      · exact Nat.le_succ_of_le (ih _)
      · exact Nat.le_refl _
      · exact Nat.le_refl _

/-- Finishing the operators of a level first makes no difference to finishing all of them. -/
theorem close_close (level : Nat) (fs : List Frame) (e : Expr Span) :
    close 0 (close level fs e).1 (close level fs e).2 = close 0 fs e := by
  induction fs generalizing e with
  | nil => rfl
  | cons f fs ih =>
    cases f with
    | paren o => rfl
    | unary op =>
      rw [close]
      split
      · rw [ih]
        simp [close]
      · rfl
    | binary l op m =>
      rw [close]
      split
      · rw [ih]
        simp [close]
      · rfl

/-- Finishing operators leaves the parentheses as they are. -/
theorem floor_close (base level : Nat) (fs : List Frame) (e : Expr Span) :
    floor base (close level fs e).1 = floor base fs := by
  induction fs generalizing e with
  | nil => rfl
  | cons f fs ih =>
    cases f with
    | paren o => rfl
    | unary op =>
      rw [close]
      split
      · exact ih _
      · rfl
    | binary l op m =>
      rw [close]
      split
      · exact ih _
      · rfl

/-- Outside of parentheses the operators that go on are those of the level that was asked for, and inside they are all
of them. -/
theorem floor_of_close (base : Nat) {fs fs' : List Frame} {e e' : Expr Span} (h : close 0 fs e = (fs', e')) :
    (fs' = [] ∧ floor base fs = base) ∨
      ∃ opening rest, fs' = .paren opening :: rest ∧ floor base fs = loosestLevel := by
  have hfloor := floor_close base 0 fs e
  rcases close_zero fs e with hnil | ⟨opening, rest, hparen⟩
  · rw [hnil] at hfloor
    rw [h] at hnil
    exact Or.inl ⟨hnil, hfloor.symm⟩
  · rw [hparen] at hfloor
    rw [h] at hparen
    exact Or.inr ⟨opening, rest, hparen, hfloor.symm⟩

/-- The operators that go on with an operand on some frames. -/
def operatorsOn (base : Nat) (fs : List Frame) : List Kind :=
  Kind.exprOperators.filter fun kind => kind.binaryLevel?.any fun level => floor base fs ≤ level

theorem mem_operatorsOn_iff {fs : List Frame} {kind : Kind} :
    kind ∈ operatorsOn base fs ↔ ∃ level, kind.binaryLevel? = some level ∧ floor base fs ≤ level := by
  simp only [operatorsOn, List.mem_filter, Option.any_eq_true, decide_eq_true_eq]
  constructor
  · exact And.right
  · rintro ⟨level, hlevel, hle⟩
    exact ⟨Kind.mem_exprOperators (Kind.binaryLevel?_eq_some_iff.1 hlevel), level, hlevel, hle⟩

theorem operatorsOn_eq_nil_iff {fs : List Frame} : operatorsOn base fs = [] ↔ prefixLevel ≤ floor base fs := by
  rw [List.eq_nil_iff_forall_not_mem]
  constructor
  · intro h
    have hslash := mt mem_operatorsOn_iff.2 (h .slash)
    simp only [Kind.binaryLevel?, Option.some.injEq, exists_eq_left'] at hslash
    exact Nat.lt_of_not_le hslash
  · intro h kind hkind
    obtain ⟨level, hlevel, hle⟩ := mem_operatorsOn_iff.1 hkind
    have := (Kind.level_of_mem_operatorsOf (Kind.binaryLevel?_eq_some_iff.1 hlevel)).2
    simp only [prefixLevel] at h
    omega

/-- An expression is complete whatever follows if there is no operator that goes on with it. -/
theorem settled?_eq (base : Nat) {fs fs' : List Frame} {e e' : Expr Span} (h : close 0 fs e = (fs', e')) :
    settled? base ⟨fs, some e⟩ = if operatorsOn base fs = [] then some e' else none := by
  simp only [settled?, operatorsOn_eq_nil_iff, h]
  rcases floor_of_close base h with ⟨rfl, hfloor⟩ | ⟨opening, rest, rfl, hfloor⟩
  · rw [hfloor]
    by_cases hbase : base < prefixLevel
    · rw [if_pos hbase, if_neg (Nat.not_le.2 hbase)]
    · rw [if_neg hbase, if_pos (Nat.not_lt.1 hbase)]
  · rw [hfloor, if_neg (by decide : ¬ prefixLevel ≤ loosestLevel)]
    exact ite_self none

/-- An operator that goes on with the operand finishes the pending operators of at least its level. -/
theorem stepOperator_of_mem {fs : List Frame} {t : Token} (h : t.kind ∈ operatorsOn base fs) (e : Expr Span) :
    stepOperator base fs e t =
      let level := t.kind.binaryLevel?.getD loosestLevel
      .shift ⟨.binary (close level fs e).2 t level :: (close level fs e).1, none⟩ := by
  obtain ⟨level, hlevel, hle⟩ := mem_operatorsOn_iff.1 h
  rw [stepOperator, hlevel]
  dsimp only
  rw [floor_close, if_pos hle]
  rfl

/-- Any other token closes the parenthesis that the operand stands in, or ends the expression. -/
theorem stepOperator_of_not_mem {fs : List Frame} {t : Token} (h : t.kind ∉ operatorsOn base fs) (e : Expr Span) :
    stepOperator base fs e t = stepClosing fs e t := by
  rw [stepOperator]
  rcases hlevel : t.kind.binaryLevel? with _ | level
  · rfl
  -- an operator of a lower level, so that the expression stands in no parenthesis
  have hlow : ¬ floor base fs ≤ level := fun hle => h (mem_operatorsOn_iff.2 ⟨level, hlevel, hle⟩)
  dsimp only
  rw [floor_close, if_neg hlow, close_close, stepClosing]
  rcases hclose : close 0 fs e with ⟨fs', e'⟩
  rcases floor_of_close base hclose with ⟨rfl, -⟩ | ⟨opening, rest, -, hfloor⟩
  · rfl
  · have hone := (Kind.level_of_mem_operatorsOf (Kind.binaryLevel?_eq_some_iff.1 hlevel)).1
    rw [hfloor] at hlow
    exact absurd hone hlow

end Assembly

/-! ### An assembly goes on -/

namespace ExprReader

open Assembly

variable {r : ExprReader} {t : Token} {limit base : Nat} {s : Assembly}

/-- Go on with an assembly at the place; reading an expression does so with nothing assembled. -/
def resume (r : ExprReader) (limit base : Nat) (s : Assembly) : Outcome (Expr Span) :=
  let (verdict, rest) := run limit base s r.cursor.after
  let moved := { r with cursor := r.cursor.skip (r.cursor.after.length - rest.length) }
  match verdict with
  | .accepted e => (.ok e, moved)
  | .rejected t why => (.error .mistaken, moved.addError t why.message)
  | .exhausted => (.error .noToken, moved)

theorem readExpr_eq_resume (r : ExprReader) (limit level : Nat) :
    r.readExpr limit level = r.resume limit level {} := rfl

theorem resume_of_settled {e : Expr Span} (hs : s.settled? base = some e) : r.resume limit base s = (.ok e, r) := by
  have hrun : run limit base s r.cursor.after = (.accepted e, r.cursor.after) := by
    rw [run.eq_def, hs]
  rw [resume, hrun]
  dsimp only
  rw [Nat.sub_self]
  rfl

theorem resume_of_none (ht : r.peek? = none) (hs : s.settled? base = none) :
    r.resume limit base s = (.error .noToken, r) := by
  have hnil : r.cursor.after = [] := List.head?_eq_none_iff.1 ht
  have hrun : run limit base s r.cursor.after = (.exhausted, []) := by rw [hnil, run, hs]
  rw [resume, hrun, hnil]
  rfl

/-- What a step with the token at the place leads to. -/
def follow (r : ExprReader) (limit base : Nat) : Step → Outcome (Expr Span)
  | .shift s => r.moved.resume limit base s
  | .accept e => (.ok e, r)
  | .reject why => r.reject why

theorem resume_of_some (ht : r.peek? = some t) (hs : s.settled? base = none) :
    r.resume limit base s = r.follow limit base (s.step limit base t) := by
  obtain ⟨rest, hrest⟩ := List.head?_eq_some_iff.1 ht
  rcases hstep : s.step limit base t with s' | e | why
  · have hrun : run limit base s r.cursor.after = run limit base s' rest := by
      rw [hrest, run, hs]
      simp only [hstep]
    have hnext : r.moved.cursor.after = rest := by
      rw [moved, Cursor.after_next, hrest]
      rfl
    rw [follow, resume, hrun, hrest, resume, hnext, List.length_cons]
    dsimp only
    rw [Nat.succ_sub (length_run_le s' rest)]
    rfl
  · have hrun : run limit base s r.cursor.after = (.accepted e, r.cursor.after) := by
      rw [hrest, run, hs]
      simp only [hstep]
    rw [follow, resume, hrun]
    dsimp only
    rw [Nat.sub_self]
    rfl
  · have hrun : run limit base s r.cursor.after = (.rejected t why, r.cursor.after) := by
      rw [hrest, run, hs]
      simp only [hstep]
    rw [follow, resume, hrun, reject, peek, ht]
    dsimp only
    rw [Nat.sub_self]
    rfl

/-- Where an operand is due, a prefix operator is accepted, or else a parenthesis, or else a literal. -/
theorem resume_operand (r : ExprReader) (limit base : Nat) (fs : List Frame) :
    r.resume limit base ⟨fs, none⟩ =
      (r.accept (if base ≤ prefixLevel ∨ fs ≠ [] then Kind.prefixOperators else [])).andThen fun isPrefix moved =>
        if isPrefix then
          if limit + 1 < depth fs then r.reject .tooDeep
          else moved.previous.andThen fun op moved => moved.resume limit base ⟨.unary op :: fs, none⟩
        else if limit < depth fs then r.reject .tooDeep
        else (r.accept [.leftParen]).andThen fun isParen moved =>
          if isParen then
            moved.previous.andThen fun opening moved => moved.resume limit base ⟨.paren opening :: fs, none⟩
          else (r.accept [.falseWord, .trueWord, .nullWord, .number, .string]).andThen fun isLiteral moved =>
            if isLiteral then
              moved.previous.andThen fun t moved =>
                moved.resume limit base ⟨fs, some (.literal t.span (t.value?.getD .null))⟩
            else r.reject .expectExpression := by
  have hs : settled? base ⟨fs, none⟩ = none := rfl
  rcases ht : r.peek? with _ | t
  · -- nothing is left: whichever operation comes first is refused
    have hreject (why : Rejection) : (r.reject why : Outcome (Expr Span)) = (.error .noToken, r) := by
      rw [reject, peek, ht]
      rfl
    rw [resume_of_none ht hs]
    split
    · rw [accept_of_none ht (by decide)]
      rfl
    · rw [accept_nil, hreject, accept_of_none ht (by decide)]
      simp [Outcome.andThen]
  · have hunary : t.kind ∈ (if base ≤ prefixLevel ∨ fs ≠ [] then Kind.prefixOperators else []) ↔
        (t.kind.isPrefixOperator && (decide (base ≤ prefixLevel) || !fs.isEmpty)) = true := by
      split <;> rename_i h <;> cases fs <;> simp_all [Kind.isPrefixOperator_iff]
    have hparen : t.kind ∈ [Kind.leftParen] ↔ t.kind = .leftParen := List.mem_singleton
    have hliteral : t.kind ∈ [Kind.falseWord, .trueWord, .nullWord, .number, .string] ↔ t.value?.isSome = true := by
      unfold Token.value?
      cases t.kind <;> simp
    rw [resume_of_some ht hs]
    show r.follow limit base (stepOperand limit base fs t) = _
    rw [stepOperand, accept_of_some ht (by split <;> decide)]
    by_cases h : t.kind ∈ (if base ≤ prefixLevel ∨ fs ≠ [] then Kind.prefixOperators else [])
    · rw [if_pos h, if_pos (hunary.1 h)]
      show _ = if limit + 1 < depth fs then _ else r.moved.previous.andThen _
      rw [previous_moved ht]
      by_cases hdeep : limit + 1 < depth fs
      · rw [if_pos hdeep, if_pos hdeep]
        rfl
      · rw [if_neg hdeep, if_neg hdeep]
        rfl
    rw [if_neg h, if_neg (mt hunary.2 h)]
    show _ = if limit < depth fs then _ else (r.accept _).andThen _
    by_cases hdeep : limit < depth fs
    · rw [if_pos hdeep, if_pos hdeep]
      rfl
    rw [if_neg hdeep, if_neg hdeep, accept_of_some ht (by decide)]
    by_cases h : t.kind = .leftParen
    · rw [if_pos h, if_pos (hparen.2 h)]
      show _ = r.moved.previous.andThen _
      rw [previous_moved ht]
      rfl
    rw [if_neg h, if_neg (mt hparen.1 h)]
    show _ = (r.accept _).andThen _
    rw [accept_of_some ht (by decide)]
    rcases hvalue : t.value? with _ | v
    · rw [if_neg fun hmem => by rw [hliteral, hvalue] at hmem; cases hmem]
      rfl
    · rw [if_pos (hliteral.2 (by rw [hvalue]; rfl))]
      show _ = r.moved.previous.andThen _
      rw [previous_moved ht]
      show _ = r.moved.resume limit base ⟨fs, some (.literal t.span (t.value?.getD .null))⟩
      rw [hvalue]
      rfl

/-- After an operand, a binary operator is accepted that goes on with it, or else the parenthesis that it stands in has
to be closed, or else the expression is complete. -/
theorem resume_operator (r : ExprReader) (limit base : Nat) (fs : List Frame) (e : Expr Span) :
    r.resume limit base ⟨fs, some e⟩ =
      (r.accept (operatorsOn base fs)).andThen fun isOperator moved =>
        if isOperator then
          moved.previous.andThen fun op moved =>
            let level := op.kind.binaryLevel?.getD loosestLevel
            moved.resume limit base ⟨.binary (close level fs e).2 op level :: (close level fs e).1, none⟩
        else match close 0 fs e with
          | (.paren opening :: fs', e') =>
            (r.consume .rightParen Rejection.expectClosing.message).andThen fun closing moved =>
              moved.resume limit base ⟨fs', some (makeGrouping opening e' closing)⟩
          | (_, e') => (.ok e', r) := by
  obtain ⟨⟨fs', e'⟩, hclose⟩ : ∃ closed, close 0 fs e = closed := ⟨_, rfl⟩
  have hs := settled?_eq base hclose
  have hcases := floor_of_close base hclose
  rw [hclose]
  by_cases hnil : operatorsOn base fs = []
  · rw [if_pos hnil] at hs
    rcases hcases with ⟨rfl, -⟩ | ⟨opening, rest, -, hfloor⟩
    · rw [resume_of_settled hs, hnil, accept_nil]
      rfl
    · rw [operatorsOn_eq_nil_iff, hfloor] at hnil
      exact absurd hnil (by decide)
  rw [if_neg hnil] at hs
  rcases ht : r.peek? with _ | t
  · rw [resume_of_none ht hs, accept_of_none ht hnil]
    rfl
  · have hend : Kind.endOfInput ∉ operatorsOn base fs := by
      intro h
      obtain ⟨level, hlevel, -⟩ := mem_operatorsOn_iff.1 h
      cases hlevel
    rw [resume_of_some ht hs, accept_of_some ht hend]
    show r.follow limit base (stepOperator base fs e t) = _
    by_cases hop : t.kind ∈ operatorsOn base fs
    · rw [stepOperator_of_mem hop, if_pos hop]
      show _ = r.moved.previous.andThen _
      rw [previous_moved ht]
      rfl
    rw [stepOperator_of_not_mem hop, if_neg hop, stepClosing, hclose]
    rcases hcases with ⟨rfl, -⟩ | ⟨opening, rest, rfl, -⟩
    · rfl
    show _ = (r.consume _ _).andThen _
    dsimp only
    rw [consume, ht]
    dsimp only
    by_cases hclosing : t.kind = .rightParen
    · have hnot : t.isEnd = false := by rw [Token.isEnd, hclosing]; rfl
      rw [if_pos hclosing, hnot, hclosing, if_pos (by decide), advance_of_not_end ht hnot]
      rfl
    · rw [if_neg hclosing, beq_eq_false_iff_ne.2 hclosing, Bool.and_false, if_neg Bool.false_ne_true]
      show r.reject .expectClosing = _
      rw [reject, peek, ht]
      rfl

end ExprReader

end LoxSyntax
