import LoxSyntax.Proofs.Expr.Grammar

/-!
# What an assembly holds

The frames of an assembly and its operand hold the tokens that were taken, and every frame says of which level the
operand on it has to be.  Finishing pending operators changes neither the tokens held nor that the levels fit.

* `holds_close`: what is finished holds the same tokens, and its level is at least the one asked for.
* `admits_close`: the frames that are left take an operator of the level at which the others were finished.
* `viable_of_holds`: whatever is held goes on to a sentence.
-/

namespace LoxSyntax.Assembly

/-- The frames on which an expression of a level may stand as the operand. -/
def Admits : List Frame → (level : Nat) → Prop
  | .unary _ :: _, n => prefixLevel ≤ n
  | .binary _ _ m :: _, n => m < n
  | _, _ => True

/-- The frames that hold some tokens, with pending operators of increasing levels inside each parenthesis. -/
inductive FramesHold : List Frame → List Token → Prop
  | nil : FramesHold [] []
  | unary {fs : List Frame} {u : List Token} {op : Token} (hop : op.kind ∈ Kind.prefixOperators)
      (hfs : FramesHold fs u) : FramesHold (.unary op :: fs) (u ++ [op])
  | binary {fs : List Frame} {u v : List Token} {l : Expr Span} {op : Token} {level m : Nat}
      (hop : op.kind ∈ Kind.operatorsOf level) (hl : l.HasLevel m) (hm : level ≤ m) (hv : l.Spells v)
      (hfs : FramesHold fs u) (ha : Admits fs level) : FramesHold (.binary l op level :: fs) (u ++ (v ++ [op]))
  | paren {fs : List Frame} {u : List Token} {opening : Token} (ho : opening.kind = .leftParen)
      (hfs : FramesHold fs u) : FramesHold (.paren opening :: fs) (u ++ [opening])

/-- Frames with an operand of a level that may stand on them, which hold some tokens together. -/
structure Holds (fs : List Frame) (e : Expr Span) (n : Nat) (p : List Token) : Prop where
  level : e.HasLevel n
  admits : Admits fs n
  tokens : ∃ u v, FramesHold fs u ∧ e.Spells v ∧ p = u ++ v

theorem Admits.mono {fs : List Frame} {m n : Nat} (h : Admits fs m) (hmn : m ≤ n) : Admits fs n := by
  unfold Admits at h ⊢
  split at h <;> omega

/-- A literal or an expression in parentheses may stand anywhere. -/
theorem FramesHold.admits_primary {fs : List Frame} {u : List Token} (h : FramesHold fs u) :
    Admits fs primaryLevel := by
  cases h with
  | nil => trivial
  | unary _ _ => exact (by decide : prefixLevel ≤ primaryLevel)
  | binary hop _ _ _ _ _ => exact Nat.lt_of_le_of_lt (Kind.level_of_mem_operatorsOf hop).2 (by decide)
  | paren _ _ => trivial

/-! ### Finishing one operator -/

theorem Holds.makeUnary {fs : List Frame} {e : Expr Span} {op : Token} {n : Nat} {p : List Token}
    (h : Holds (.unary op :: fs) e n p) (ha : Admits fs prefixLevel) :
    Holds fs (makeUnary op e) prefixLevel p := by
  obtain ⟨hn, had, u, v, hfs, hv, rfl⟩ := h
  cases hfs with
  | unary hop hfs =>
    refine ⟨.unary _ hop hn had, ha, _, _, hfs, .unary _ op hv, ?_⟩
    simp

theorem Holds.makeBinary {fs : List Frame} {l e : Expr Span} {op : Token} {level n : Nat} {p : List Token}
    (h : Holds (.binary l op level :: fs) e n p) : Holds fs (makeBinary l op e) level p := by
  obtain ⟨hn, had, u, v, hfs, hv, rfl⟩ := h
  cases hfs with
  | binary hop hl hm hlv hfs ha =>
    refine ⟨.binary _ hop hl hm hn had, ha, _, _, hfs, .binary _ op hlv hv, ?_⟩
    simp

theorem Holds.makeGrouping {fs : List Frame} {e : Expr Span} {opening closing : Token} {n : Nat} {p : List Token}
    (h : Holds (.paren opening :: fs) e n p) (hc : closing.kind = .rightParen) :
    Holds fs (makeGrouping opening e closing) primaryLevel (p ++ [closing]) := by
  obtain ⟨hn, -, u, v, hfs, hv, rfl⟩ := h
  cases hfs with
  | paren ho hfs =>
    refine ⟨.grouping _ hn, hfs.admits_primary, _, _, hfs, .grouping _ ho hc hv, ?_⟩
    simp

/-- On the frames under a pending prefix operator there may stand another one. -/
private theorem admits_under_unary {fs : List Frame} {op : Token} {u : List Token}
    (h : FramesHold (.unary op :: fs) u) : Admits fs prefixLevel := by
  cases h with
  | unary _ hfs =>
    cases hfs with
    | nil => trivial
    | unary _ _ => exact Nat.le_refl _
    | binary hop _ _ _ _ _ => exact Nat.lt_of_le_of_lt (Kind.level_of_mem_operatorsOf hop).2 (by decide)
    | paren _ _ => trivial

/-! ### Finishing all operators of a level -/

theorem admits_close {k : Nat} (hk : k ≤ prefixLevel) (fs : List Frame) (e : Expr Span) :
    Admits (close k fs e).1 k := by
  induction fs generalizing e with
  | nil => trivial
  | cons f fs ih =>
    cases f with
    | unary op =>
      rw [close, ite_cond_eq_true _ _ (eq_true hk)]
      exact ih _
    | binary l op m =>
      rw [close]
      split
      · exact ih _
      · rename_i h
        exact Nat.lt_of_not_le h
    | paren o => trivial

theorem holds_close {k : Nat} {fs : List Frame} {e : Expr Span} {n : Nat} {p : List Token} (h : Holds fs e n p)
    (hk : k ≤ n) : ∃ m, k ≤ m ∧ Holds (close k fs e).1 (close k fs e).2 m p := by
  induction fs generalizing e n with
  | nil => exact ⟨n, hk, h⟩
  | cons f fs ih =>
    cases f with
    | unary op =>
      rw [close]
      split
      · rename_i hk'
        obtain ⟨u, _, hfs, _⟩ := h.tokens
        exact ih (h.makeUnary (admits_under_unary hfs)) hk'
      · exact ⟨n, hk, h⟩
    | binary l op m =>
      rw [close]
      split
      · rename_i hk'
        exact ih h.makeBinary hk'
      · exact ⟨n, hk, h⟩
    | paren o => exact ⟨n, hk, h⟩

/-! ### Completions -/

/-- Pending operators are finished as they are, and every open parenthesis is closed. -/
theorem viable_of_holds {fs : List Frame} {e : Expr Span} {n : Nat} {p : List Token} (h : Holds fs e n p) :
    Expr.Viable p := by
  induction fs generalizing e n p with
  | nil =>
    obtain ⟨hn, -, u, v, hfs, hv, rfl⟩ := h
    cases hfs
    exact (Expr.IsSentence.of_spells hn hv).viable
  | cons f fs ih =>
    obtain ⟨u, _, hfs, _⟩ := h.tokens
    cases f with
    | unary op => exact ih (h.makeUnary (admits_under_unary hfs))
    | binary l op m =>
      cases hfs
      exact ih h.makeBinary
    | paren o =>
      have hg := h.makeGrouping (show Kind.rightParen.token.kind = .rightParen from rfl)
      obtain ⟨q, hq⟩ := ih hg
      rw [List.append_assoc] at hq
      exact ⟨_, hq⟩

end LoxSyntax.Assembly
