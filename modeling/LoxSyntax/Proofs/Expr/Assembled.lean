import LoxSyntax.Proofs.Expr.Parsing

/-!
# Spans of assembled expressions

While an expression is assembled, a literal gets the span of its token and every other node the join of two spans: a
prefix operator and its operand, two operands, or two parentheses.  The frames keep this up from token to token, so the
spans of an expression that is given are determined by its tokens.

* `assembles_close`, `stateAssembles_step`, `stateAssembles_shiftAll?`: what finishing operators, one token and a run
  of tokens keep up.
* `assembled_of_parse`: an expression that a parse gives has the spans of its tokens.
* `Assembled.of_mem_parts`: every node of it has the spans of the tokens it is read from.
-/

namespace LoxSyntax

variable {limit : Nat}

namespace Expr

open Assembly (makeUnary makeBinary makeGrouping)

variable {α : Type}

/-- An expression that is spelled by tokens and has the spans that they give it. -/
inductive Assembled : Expr Span → List Token → Prop
  | literal {v : Literal} {t : Token} (h : t.Denotes v) : Assembled (.literal t.span v) [t]
  | unary (op : Token) {e : Expr Span} {w : List Token} (he : Assembled e w) : Assembled (makeUnary op e) (op :: w)
  | binary (op : Token) {l r : Expr Span} {v w : List Token} (hl : Assembled l v) (hr : Assembled r w) :
      Assembled (makeBinary l op r) (v ++ op :: w)
  | grouping {opening closing : Token} {e : Expr Span} {w : List Token} (ho : opening.kind = .leftParen)
      (hc : closing.kind = .rightParen) (he : Assembled e w) :
      Assembled (makeGrouping opening e closing) (opening :: w ++ [closing])

theorem Assembled.spells {e : Expr Span} {w : List Token} (h : e.Assembled w) : e.Spells w := by
  induction h with
  | literal h => exact .literal _ h
  | unary op _ ih => exact .unary _ op ih
  | binary op _ _ ihl ihr => exact .binary _ op ihl ihr
  | grouping ho hc _ ih => exact .grouping _ ho hc ih

/-! ### Nodes and their tokens -/

/-- How many tokens an expression is spelled by. -/
def tokenCount : Expr α → Nat
  | literal _ _ => 1
  | unary _ _ e => e.tokenCount + 1
  | binary _ l _ r => l.tokenCount + 1 + r.tokenCount
  | grouping _ e => e.tokenCount + 2

/-- The nodes of an expression that is spelled by the tokens `w`, each with the tokens that it is read from. -/
def parts : Expr α → (w : List Token) → List (Expr α × List Token)
  | literal i v, w => [(literal i v, w)]
  | unary i op e, w => (unary i op e, w) :: e.parts (w.drop 1)
  | binary i l op r, w =>
    (binary i l op r, w) :: (l.parts (w.take l.tokenCount) ++ r.parts (w.drop (l.tokenCount + 1)))
  | grouping i e, w => (grouping i e, w) :: e.parts ((w.drop 1).take e.tokenCount)

theorem Spells.length_eq {e : Expr α} {w : List Token} (h : e.Spells w) : w.length = e.tokenCount := by
  induction h with
  | literal => rfl
  | unary _ _ _ ih => simp [tokenCount, ih]
  | binary _ _ _ _ ihl ihr => simp [tokenCount, ihl, ihr, Nat.add_assoc, Nat.add_comm 1]
  | grouping _ _ _ _ ih => simp [tokenCount, ih]

theorem Assembled.of_mem_parts {e n : Expr Span} {w u : List Token} (h : e.Assembled w) (hn : (n, u) ∈ e.parts w) :
    n.Assembled u ∧ u <:+: w := by
  induction h with
  | literal h =>
    obtain ⟨rfl, rfl⟩ := by simpa [parts] using hn
    exact ⟨.literal h, List.infix_rfl⟩
  | @unary op e w he ih =>
    rcases List.mem_cons.1 hn with hn | hn
    · cases hn
      exact ⟨.unary op he, List.infix_rfl⟩
    · obtain ⟨ha, hu⟩ := ih hn
      exact ⟨ha, hu.trans (List.suffix_cons op w).isInfix⟩
  | @binary op l r v w hl hr ihl ihr =>
    have hlen := hl.spells.length_eq
    rcases List.mem_cons.1 hn with hn | hn
    · cases hn
      exact ⟨.binary op hl hr, List.infix_rfl⟩
    rcases List.mem_append.1 hn with hn | hn
    · rw [← hlen, List.take_left] at hn
      obtain ⟨ha, hu⟩ := ihl hn
      exact ⟨ha, hu.trans (List.prefix_append v (op :: w)).isInfix⟩
    · have e : (v ++ op :: w).drop (l.tokenCount + 1) = w := by
        rw [← hlen, List.drop_length_add_append]
        rfl
      rw [e] at hn
      obtain ⟨ha, hu⟩ := ihr hn
      refine ⟨ha, hu.trans ?_⟩
      exact ((List.suffix_cons op w).trans (List.suffix_append v (op :: w))).isInfix
  | @grouping opening closing e w ho hc he ih =>
    rcases List.mem_cons.1 hn with hn | hn
    · cases hn
      exact ⟨.grouping ho hc he, List.infix_rfl⟩
    · rw [List.cons_append, List.drop_one, List.tail_cons, ← he.spells.length_eq, List.take_left] at hn
      obtain ⟨ha, hu⟩ := ih hn
      exact ⟨ha, hu.trans ⟨[opening], [closing], rfl⟩⟩

end Expr

namespace Assembly

/-! ### What the frames keep up -/

/-- The frames that are made of some tokens. -/
inductive FramesAssemble : List Frame → List Token → Prop
  | nil : FramesAssemble [] []
  | unary {fs : List Frame} {u : List Token} (op : Token) (hfs : FramesAssemble fs u) :
      FramesAssemble (.unary op :: fs) (u ++ [op])
  | binary {fs : List Frame} {u v : List Token} {l : Expr Span} (op : Token) (level : Nat) (hl : l.Assembled v)
      (hfs : FramesAssemble fs u) : FramesAssemble (.binary l op level :: fs) (u ++ (v ++ [op]))
  | paren {fs : List Frame} {u : List Token} {opening : Token} (ho : opening.kind = .leftParen)
      (hfs : FramesAssemble fs u) : FramesAssemble (.paren opening :: fs) (u ++ [opening])

/-- The frames and the operand on them that are made of some tokens. -/
def Assembles (fs : List Frame) (e : Expr Span) (p : List Token) : Prop :=
  ∃ u v, FramesAssemble fs u ∧ e.Assembled v ∧ p = u ++ v

theorem assembles_close (k : Nat) {fs : List Frame} {e : Expr Span} {p : List Token} (h : Assembles fs e p) :
    Assembles (close k fs e).1 (close k fs e).2 p := by
  induction fs generalizing e with
  | nil => exact h
  | cons f fs ih =>
    obtain ⟨u, v, hfs, hv, rfl⟩ := h
    cases hfs with
    | unary op hfs =>
      rw [close]
      split
      · exact ih ⟨_, op :: v, hfs, .unary op hv, by simp⟩
      · exact ⟨_, v, .unary op hfs, hv, rfl⟩
    | @binary _ _ v' l op level hl hfs =>
      rw [close]
      split
      · exact ih ⟨_, v' ++ op :: v, hfs, .binary op hl hv, by simp⟩
      · exact ⟨_, v, .binary op level hl hfs, hv, rfl⟩
    | paren ho hfs => exact ⟨_, v, .paren ho hfs, hv, rfl⟩

/-- An assembly that is made of some tokens. -/
def StateAssembles (s : Assembly) (p : List Token) : Prop :=
  match s.operand? with
  | none => FramesAssemble s.pending p
  | some e => Assembles s.pending e p

theorem stateAssembles_step {s s' : Assembly} {t : Token} {p : List Token} (hs : StateAssembles s p)
    (h : StepsTo limit s t (.shift s')) : StateAssembles s' (p ++ [t]) := by
  cases h with
  | unary hd ht => exact .unary t hs
  | paren hd ht => exact .paren ht hs
  | literal hd ht => exact ⟨p, [t], hs, .literal ht, rfl⟩
  | @binary fs e _ level ht =>
    obtain ⟨u, v, hfs, hv, rfl⟩ := assembles_close level (show Assembles fs e p from hs)
    rw [List.append_assoc]
    exact .binary t level hv hfs
  | @grouping fs fs' e e' _ opening hc ht =>
    have hcl := assembles_close 0 (show Assembles fs e p from hs)
    rw [hc] at hcl
    obtain ⟨u, v, hfs, hv, rfl⟩ := hcl
    cases hfs with
    | paren ho hfs => exact ⟨_, opening :: v ++ [t], hfs, .grouping ho ht hv, by simp⟩

theorem stateAssembles_shiftAll? {s s' : Assembly} {p q : List Token} (hs : StateAssembles s p)
    (h : s.shiftAll? limit q = some s') : StateAssembles s' (p ++ q) := by
  induction q generalizing s p with
  | nil =>
    cases h
    rwa [List.append_nil]
  | cons t q ih =>
    obtain ⟨r, hr, h⟩ := shiftAll?_cons_eq_some_iff.1 h
    have := ih (stateAssembles_step hs hr) h
    rwa [List.append_assoc] at this

theorem assembled_of_accept {s : Assembly} {t : Token} {e : Expr Span} {p : List Token} (hs : StateAssembles s p)
    (h : StepsTo limit s t (.accept e)) : e.Assembled p := by
  cases h with
  | @accept fs e₀ _ _ hb hc =>
    have hcl := assembles_close 0 (show Assembles fs e₀ p from hs)
    rw [hc] at hcl
    obtain ⟨u, v, hfs, hv, rfl⟩ := hcl
    cases hfs
    exact hv

end Assembly

namespace ExprReader

/-- An expression that a parse gives has the spans of the tokens before the end of the input. -/
theorem assembled_of_parse {r r' : ExprReader} {tokens : List Token} {e : Expr Span}
    (h : r.parse limit tokens = (.ok (some e), r')) : e.Assembled (body tokens) := by
  obtain ⟨t, s, hs, ha⟩ := stops_of_parse h
  have hstart : Assembly.StateAssembles {} [] := .nil
  exact Assembly.assembled_of_accept (Assembly.stateAssembles_shiftAll? hstart hs.taken) ha

end ExprReader

end LoxSyntax
