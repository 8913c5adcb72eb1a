import LoxSyntax.Expr.Assembly

/-!
# The grammar of expressions

Every binary operator has a level, from equality 1 over comparison 2 and term 3 to factor 4.  An operand on the left
has at least the level of its operator, one on the right a higher level, so that operators of one level associate to
the left.  An expression is spelled by its tokens from left to right; where its nodes stand has no effect.

* `binaryLevel?_eq_some_iff`, `isPrefixOperator_iff`, `value?_eq_some_iff`: what is asked of a token while an
  expression is assembled is what the grammar says of it.
* `hasLevel_congr`, `spells_congr`: level and spelling depend on the shape of an expression only.
-/

namespace LoxSyntax

/-! ### Tokens of the grammar -/

/-- The binary operators of a level. -/
def Kind.operatorsOf : (level : Nat) → List Kind
  | 1 => [bangEqual, equalEqual]
  | 2 => [greater, greaterEqual, less, lessEqual]
  | 3 => [minus, plus]
  | 4 => [slash, star]
  | _ => []

/-- The operators that stand in front of their operand. -/
def Kind.prefixOperators : List Kind := [bang, minus]

/-- The operators of expressions. -/
def Kind.exprOperators : List Kind :=
  prefixOperators ++ operatorsOf 1 ++ operatorsOf 2 ++ operatorsOf 3 ++ operatorsOf 4

/-- The token of a kind that is written as its symbol. -/
def Kind.token (k : Kind) : Token := { kind := k, lexeme := k.symbol }

/-- A token that is a literal, and its value. -/
inductive Token.Denotes : Token → Literal → Prop
  | falseWord {t : Token} (h : t.kind = .falseWord) : Denotes t (.bool false)
  | trueWord {t : Token} (h : t.kind = .trueWord) : Denotes t (.bool true)
  | nullWord {t : Token} (h : t.kind = .nullWord) : Denotes t .null
  | number {t : Token} (h : t.kind = .number) : Denotes t t.literal
  | string {t : Token} (h : t.kind = .string) : Denotes t t.literal

theorem Kind.level_of_mem_operatorsOf {k : Kind} {n : Nat} (h : k ∈ operatorsOf n) : 1 ≤ n ∧ n ≤ 4 := by
  unfold operatorsOf at h
  split at h <;> simp_all

theorem Kind.binaryLevel?_eq_some_iff {k : Kind} {n : Nat} : k.binaryLevel? = some n ↔ k ∈ operatorsOf n := by
  constructor
  · intro h
    unfold binaryLevel? at h
    split at h <;> cases h <;> decide
  · intro h
    unfold operatorsOf at h
    split at h <;> simp only [List.mem_cons, List.not_mem_nil, or_false] at h
    · rcases h with rfl | rfl <;> rfl
    · rcases h with rfl | rfl | rfl | rfl <;> rfl
    · rcases h with rfl | rfl <;> rfl
    · rcases h with rfl | rfl <;> rfl

theorem Kind.mem_exprOperators {k : Kind} {n : Nat} (h : k ∈ operatorsOf n) : k ∈ exprOperators := by
  rw [← binaryLevel?_eq_some_iff] at h
  cases k <;> first | decide | cases h

theorem Kind.prefix_mem_exprOperators {k : Kind} (h : k ∈ prefixOperators) : k ∈ exprOperators := by
  simp [exprOperators, h]

theorem Kind.isPrefixOperator_iff {k : Kind} : k.isPrefixOperator = true ↔ k ∈ prefixOperators := by
  cases k <;> simp [isPrefixOperator, prefixOperators]

theorem Token.value?_eq_some_iff {t : Token} {v : Literal} : t.value? = some v ↔ t.Denotes v := by
  constructor
  · intro h
    unfold value? at h
    split at h <;> rename_i hk <;> cases h
    · exact .falseWord hk
    · exact .trueWord hk
    · exact .nullWord hk
    · exact .number hk
    · exact .string hk
  · intro h
    cases h with
    | falseWord h => simp [value?, h]
    | trueWord h => simp [value?, h]
    | nullWord h => simp [value?, h]
    | number h => simp [value?, h]
    | string h => simp [value?, h]

/-- A token that is a literal is neither an operator nor a bracket nor the end of the input. -/
theorem Token.Denotes.kind_cases {t : Token} {v : Literal} (h : t.Denotes v) :
    t.kind.isPrefixOperator = false ∧ t.kind ≠ .leftParen ∧ t.isEnd = false := by
  cases h with
  | falseWord h => simp [isEnd, h, Kind.isPrefixOperator]
  | trueWord h => simp [isEnd, h, Kind.isPrefixOperator]
  | nullWord h => simp [isEnd, h, Kind.isPrefixOperator]
  | number h => simp [isEnd, h, Kind.isPrefixOperator]
  | string h => simp [isEnd, h, Kind.isPrefixOperator]

namespace Expr

variable {α β : Type}

/-! ### Expressions and their tokens -/

/-- An expression without the information at its nodes. -/
def shape (e : Expr α) : Expr Unit := e.map fun _ => ()

/-- An expression that respects the levels of its operators, and its own level. -/
inductive HasLevel : Expr α → (level : Nat) → Prop
  | literal (i : α) (v : Literal) : HasLevel (literal i v) primaryLevel
  | unary (i : α) {op : Token} {e : Expr α} {n : Nat} (hop : op.kind ∈ Kind.prefixOperators) (he : HasLevel e n)
      (hn : prefixLevel ≤ n) : HasLevel (unary i op e) prefixLevel
  | binary (i : α) {l r : Expr α} {op : Token} {level m n : Nat} (hop : op.kind ∈ Kind.operatorsOf level)
      (hl : HasLevel l m) (hm : level ≤ m) (hr : HasLevel r n) (hn : level < n) : HasLevel (binary i l op r) level
  | grouping (i : α) {e : Expr α} {n : Nat} (he : HasLevel e n) : HasLevel (grouping i e) primaryLevel

/-- The tokens of an expression, from left to right. -/
inductive Spells : Expr α → List Token → Prop
  | literal (i : α) {v : Literal} {t : Token} (h : t.Denotes v) : Spells (literal i v) [t]
  | unary (i : α) (op : Token) {e : Expr α} {w : List Token} (he : Spells e w) : Spells (unary i op e) (op :: w)
  | binary (i : α) {l r : Expr α} (op : Token) {v w : List Token} (hl : Spells l v) (hr : Spells r w) :
      Spells (binary i l op r) (v ++ op :: w)
  | grouping (i : α) {e : Expr α} {w : List Token} {opening closing : Token} (ho : opening.kind = .leftParen)
      (hc : closing.kind = .rightParen) (he : Spells e w) : Spells (grouping i e) (opening :: w ++ [closing])

theorem HasLevel.map {e : Expr α} {n : Nat} (h : e.HasLevel n) (f : α → β) : (e.map f).HasLevel n := by
  induction h with
  | literal i v => exact .literal _ v
  | unary i hop _ hn ih => exact .unary _ hop ih hn
  | binary i hop _ hm _ hn ihl ihr => exact .binary _ hop ihl hm ihr hn
  | grouping i _ ih => exact .grouping _ ih

theorem Spells.map {e : Expr α} {w : List Token} (h : e.Spells w) (f : α → β) : (e.map f).Spells w := by
  induction h with
  | literal i h => exact .literal _ h
  | unary i op _ ih => exact .unary _ op ih
  | binary i op _ _ ihl ihr => exact .binary _ op ihl ihr
  | grouping i ho hc _ ih => exact .grouping _ ho hc ih

private theorem hasLevel_of_map {f : α → β} {e : Expr α} {n : Nat} (h : (e.map f).HasLevel n) : e.HasLevel n := by
  induction e generalizing n with
  | literal i v => cases h; exact .literal i v
  | unary i op e ih =>
    cases h with
    | unary _ hop he hn => exact .unary i hop (ih he) hn
  | binary i l op r ihl ihr =>
    cases h with
    | binary _ hop hl hm hr hn => exact .binary i hop (ihl hl) hm (ihr hr) hn
  | grouping i e ih =>
    cases h with
    | grouping _ he => exact .grouping i (ih he)

private theorem spells_of_map {f : α → β} {e : Expr α} {w : List Token} (h : (e.map f).Spells w) : e.Spells w := by
  induction e generalizing w with
  | literal i v =>
    cases h with
    | literal _ h => exact .literal i h
  | unary i op e ih =>
    cases h with
    | unary _ _ he => exact .unary i op (ih he)
  | binary i l op r ihl ihr =>
    cases h with
    | binary _ _ hl hr => exact .binary i op (ihl hl) (ihr hr)
  | grouping i e ih =>
    cases h with
    | grouping _ ho hc he => exact .grouping i ho hc (ih he)

private theorem HasLevel.of_shape_eq {e : Expr α} {e' : Expr β} (h : e.shape = e'.shape) {n : Nat}
    (he : e.HasLevel n) : e'.HasLevel n := by
  have key : e.shape.HasLevel n := he.map _
  rw [h] at key
  exact hasLevel_of_map key

private theorem Spells.of_shape_eq {e : Expr α} {e' : Expr β} (h : e.shape = e'.shape) {w : List Token}
    (he : e.Spells w) : e'.Spells w := by
  have key : e.shape.Spells w := he.map _
  rw [h] at key
  exact spells_of_map key

theorem hasLevel_congr {e : Expr α} {e' : Expr β} (h : e.shape = e'.shape) {n : Nat} :
    e.HasLevel n ↔ e'.HasLevel n :=
  ⟨HasLevel.of_shape_eq h, HasLevel.of_shape_eq h.symm⟩

theorem spells_congr {e : Expr α} {e' : Expr β} (h : e.shape = e'.shape) {w : List Token} :
    e.Spells w ↔ e'.Spells w :=
  ⟨Spells.of_shape_eq h, Spells.of_shape_eq h.symm⟩

/-! ### Sentences -/

/-- The tokens of an expression that respects the levels of its operators. -/
def IsSentence (w : List Token) : Prop :=
  ∃ (e : Expr Unit) (n : Nat), e.HasLevel n ∧ e.Spells w

/-- The tokens that a sentence may begin with. -/
def Viable (p : List Token) : Prop := ∃ q, IsSentence (p ++ q)

theorem IsSentence.of_spells {e : Expr α} {n : Nat} {w : List Token} (hn : e.HasLevel n) (hw : e.Spells w) :
    IsSentence w :=
  ⟨e.shape, n, hn.map _, hw.map _⟩

theorem IsSentence.viable {w : List Token} (h : IsSentence w) : Viable w := ⟨[], by rwa [List.append_nil]⟩

end Expr

end LoxSyntax
