import LoxSyntax.Expr.Equality
import LoxSyntax.Proofs.Literal

/-!
# Expressions that are alike

To be alike is to have one shape, the same values and the same operators.  The comparison that nests calls finds out
whether two expressions are alike whenever it comes back, and it comes back when the less high one of them is not too
high, or when they are one object.

* `Alike.equivalence`: to be alike is an equivalence, with numbers that are none among the literals or without them.
* `same?_decides`: a comparison that comes back is right.
* `same?_isSome_of_height`, `same?_self`: when it comes back.
-/

namespace LoxSyntax.Expr

/-! ### Values and operators -/

section Values

variable {i j k : Objects} {v w x : Literal} {s t u : Token}

theorem shares_iff : i.shares j v w = true ↔ i.literal = j.literal ∧ v = w := by
  simp [Objects.shares]

theorem sameValue_iff : sameValue i j v w = true ↔ (i.literal = j.literal ∧ v = w) ∨ v.same w = true := by
  rw [sameValue, Bool.or_eq_true, shares_iff]

theorem sameValue_self (i : Objects) (v : Literal) : sameValue i i v v = true :=
  sameValue_iff.2 (Or.inl ⟨rfl, rfl⟩)

theorem sameValue_symm (h : sameValue i j v w = true) : sameValue j i w v = true := by
  rw [sameValue_iff] at *
  exact h.imp (fun h => ⟨h.1.symm, h.2.symm⟩) fun h => Literal.same_comm v w ▸ h

theorem sameValue_trans (h : sameValue i j v w = true) (h' : sameValue j k w x = true) : sameValue i k v x = true := by
  rw [sameValue_iff] at *
  rcases h with ⟨hi, rfl⟩ | h
  · exact h'.imp (fun h' => ⟨hi.trans h'.1, h'.2⟩) id
  · rcases h' with ⟨-, rfl⟩ | h'
    · exact Or.inr h
    · exact Or.inr (Literal.same_trans h h')

theorem sameOperator_iff : sameOperator i j s t = true ↔ s.lexeme = t.lexeme ∧ s.kind = t.kind ∧
    ((i.literal = j.literal ∧ s.literal = t.literal) ∨ s.literal.agree t.literal = true) ∧ s.line = t.line := by
  rw [sameOperator, Token.same_iff, shares_iff]

theorem sameOperator_self (i : Objects) (s : Token) : sameOperator i i s s = true :=
  sameOperator_iff.2 ⟨rfl, rfl, Or.inl ⟨rfl, rfl⟩, rfl⟩

theorem sameOperator_symm (h : sameOperator i j s t = true) : sameOperator j i t s = true := by
  rw [sameOperator_iff] at *
  obtain ⟨hlexeme, hkind, hliteral, hline⟩ := h
  refine ⟨hlexeme.symm, hkind.symm, ?_, hline.symm⟩
  exact hliteral.imp (fun h => ⟨h.1.symm, h.2.symm⟩) fun h => Literal.agree_comm _ _ ▸ h

theorem sameOperator_trans (h : sameOperator i j s t = true) (h' : sameOperator j k t u = true) :
    sameOperator i k s u = true := by
  rw [sameOperator_iff] at *
  obtain ⟨hlexeme, hkind, hliteral, hline⟩ := h
  obtain ⟨hlexeme', hkind', hliteral', hline'⟩ := h'
  refine ⟨hlexeme.trans hlexeme', hkind.trans hkind', ?_, hline.trans hline'⟩
  rcases hliteral with ⟨hi, hst⟩ | hst
  · rw [hst]
    exact hliteral'.imp (fun h' => ⟨hi.trans h'.1, h'.2⟩) id
  · rcases hliteral' with ⟨-, htu⟩ | htu
    · rw [← htu]
      exact Or.inr hst
    · exact Or.inr (Literal.agree_trans hst htu)

end Values

/-! ### Equality -/

/-- Two expressions have one shape, the same values and the same operators. -/
inductive Alike : Expr Objects → Expr Objects → Prop
  | literal {i j : Objects} {v w : Literal} (h : sameValue i j v w = true) : Alike (.literal i v) (.literal j w)
  | unary {i j : Objects} {op op' : Token} {e e' : Expr Objects} (hop : sameOperator i j op op' = true)
      (h : Alike e e') : Alike (.unary i op e) (.unary j op' e')
  | binary {i j : Objects} {op op' : Token} {l l' r r' : Expr Objects} (hl : Alike l l')
      (hop : sameOperator i j op op' = true) (hr : Alike r r') : Alike (.binary i l op r) (.binary j l' op' r')
  | grouping {i j : Objects} {e e' : Expr Objects} (h : Alike e e') : Alike (.grouping i e) (.grouping j e')

variable {a a' b b' c e e' x : Expr Objects} {limit : Nat} {answer : Bool}

namespace Alike

theorem refl (a : Expr Objects) : Alike a a := by
  induction a with
  | literal i v => exact .literal (sameValue_self i v)
  | unary i op e ih => exact .unary (sameOperator_self i op) ih
  | binary i l op r ihl ihr => exact .binary ihl (sameOperator_self i op) ihr
  | grouping i e ih => exact .grouping ih

theorem symm (h : Alike a b) : Alike b a := by
  induction h with
  | literal h => exact .literal (sameValue_symm h)
  | unary hop _ ih => exact .unary (sameOperator_symm hop) ih
  | binary _ hop _ ihl ihr => exact .binary ihl (sameOperator_symm hop) ihr
  | grouping _ ih => exact .grouping ih

theorem trans (h : Alike a b) (h' : Alike b c) : Alike a c := by
  induction h generalizing c with
  | literal h =>
    cases h' with
    | literal h' => exact .literal (sameValue_trans h h')
  | unary hop _ ih =>
    cases h' with
    | unary hop' h' => exact .unary (sameOperator_trans hop hop') (ih h')
  | binary _ hop _ ihl ihr =>
    cases h' with
    | binary hl' hop' hr' => exact .binary (ihl hl') (sameOperator_trans hop hop') (ihr hr')
  | grouping _ ih =>
    cases h' with
    | grouping h' => exact .grouping (ih h')

theorem equivalence : Equivalence Alike := ⟨refl, symm, trans⟩

theorem height_eq (h : Alike a b) : a.height = b.height := by
  induction h with
  | literal _ => rfl
  | unary _ _ ih => rw [height, height, ih]
  | binary _ _ _ ihl ihr => rw [height, height, ihl, ihr]
  | grouping _ ih => rw [height, height, ih]

end Alike

theorem alike_literal_iff {i j : Objects} {v w : Literal} :
    Alike (.literal i v) (.literal j w) ↔ sameValue i j v w = true :=
  ⟨fun | .literal h => h, .literal⟩

theorem alike_unary_iff {i j : Objects} {op op' : Token} :
    Alike (.unary i op e) (.unary j op' e') ↔ sameOperator i j op op' = true ∧ Alike e e' :=
  ⟨fun | .unary hop h => ⟨hop, h⟩, fun h => .unary h.1 h.2⟩

theorem alike_binary_iff {i j : Objects} {op op' : Token} {l l' r r' : Expr Objects} :
    Alike (.binary i l op r) (.binary j l' op' r') ↔ Alike l l' ∧ sameOperator i j op op' = true ∧ Alike r r' :=
  ⟨fun | .binary hl hop hr => ⟨hl, hop, hr⟩, fun h => .binary h.1 h.2.1 h.2.2⟩

theorem alike_grouping_iff {i j : Objects} : Alike (.grouping i e) (.grouping j e') ↔ Alike e e' :=
  ⟨fun | .grouping h => h, .grouping⟩

/-! ### Answers -/

/-- An answer, if there is one, says whether something is the case. -/
def Decides (answer? : Option Bool) (p : Prop) : Prop := ∀ answer, answer? = some answer → (answer = true ↔ p)

namespace Decides

variable {r r' : Option Bool} {p q : Prop}

theorem eq_some_true (h : Decides r p) (hr : r.isSome) (hp : p) : r = some true := by
  obtain ⟨answer, rfl⟩ := Option.isSome_iff_exists.1 hr
  rw [(h answer rfl).2 hp]

theorem congr (h : Decides r p) (hpq : p ↔ q) : Decides r q := fun answer hr => (h answer hr).trans hpq

theorem guard (h : Decides r p) (few : Prop) [Decidable few] : Decides (if few then none else r) p := by
  intro answer hr
  split at hr
  · cases hr
  · exact h answer hr

theorem some_bool {answer : Bool} (h : answer = true ↔ p) : Decides (some answer) p := by
  rintro _ ⟨⟩
  exact h

theorem some_false (h : ¬ p) : Decides (some false) p := some_bool ⟨nofun, fun hp => absurd hp h⟩

theorem both (h : Decides r p) (h' : Decides r' q) :
    Decides (do if ← r then r' else return false) (p ∧ q) := by
  intro answer hr
  obtain ⟨first, hfirst, hr⟩ := Option.bind_eq_some_iff.1 hr
  have hp := h first hfirst
  cases first with
  | false =>
    cases hr
    exact ⟨nofun, fun hpq => hp.2 hpq.1⟩
  | true => exact (h' answer hr).trans (and_iff_right (hp.1 rfl)).symm

theorem either (h : Decides r p) (h' : Decides r' q) :
    Decides (do if ← r then return true else r') (p ∨ q) := by
  intro answer hr
  obtain ⟨first, hfirst, hr⟩ := Option.bind_eq_some_iff.1 hr
  have hp := h first hfirst
  cases first with
  | false => exact (h' answer hr).trans (or_iff_right fun hp' => Bool.false_ne_true (hp.2 hp')).symm
  | true =>
    cases hr
    exact ⟨fun _ => Or.inl (hp.1 rfl), fun _ => rfl⟩

theorem ifTrue (h : Decides r q) (holds : Bool) :
    Decides (if holds then r else some false) (holds = true ∧ q) := by
  cases holds with
  | false => exact some_false fun h => Bool.false_ne_true h.1
  | true => exact h.congr (and_iff_right rfl).symm

theorem operand {compared : Option Bool} (h : Decides compared (Alike e e')) :
    Decides (sameOperand? e e' compared) (Alike e e') := by
  unfold sameOperand?
  split
  · rename_i heq
    exact some_bool (iff_of_true rfl (heq ▸ Alike.refl e))
  · exact h

end Decides

/-- A comparison that comes back has found out whether the expressions are alike. -/
theorem same?_decides (limit : Nat) (a b : Expr Objects) : Decides (same? limit a b) (Alike a b) := by
  induction a generalizing limit b with
  | literal i v =>
    cases b with
    | literal j w => exact .guard (.some_bool alike_literal_iff.symm) _
    | _ => exact .guard (.some_false nofun) _
  | unary i op e ih =>
    cases b with
    | unary j op' e' => exact .guard (((ih _ e').operand.ifTrue _).congr alike_unary_iff.symm) _
    | _ => exact .guard (.some_false nofun) _
  | binary i l op r ihl ihr =>
    cases b with
    | binary j l' op' r' =>
      exact .guard (((ihl _ l').operand.both ((ihr _ r').operand.ifTrue _)).congr alike_binary_iff.symm) _
    | _ => exact .guard (.some_false nofun) _
  | grouping i e ih =>
    cases b with
    | grouping j e' => exact .guard ((ih _ e').operand.congr alike_grouping_iff.symm) _
    | _ => exact .guard (.some_false nofun) _

/-! ### How high expressions can be -/

private theorem isSome_both {r r' : Option Bool} (h : r.isSome) (h' : r'.isSome) :
    (do if ← r then r' else return false : Option Bool).isSome := by
  obtain ⟨_ | _, rfl⟩ := Option.isSome_iff_exists.1 h
  · rfl
  · exact h'

private theorem isSome_ifTrue {r : Option Bool} (h : r.isSome) (holds : Bool) :
    (if holds then r else some false).isSome := by
  cases holds
  · rfl
  · exact h

private theorem isSome_operand {compared : Option Bool} (h : compared.isSome) :
    (sameOperand? e e' compared).isSome := by
  unfold sameOperand?
  split
  · rfl
  · exact h

theorem isSome_guard {r : Option Bool} {few : Prop} [Decidable few] (hfew : ¬ few) (h : r.isSome) :
    (if few then none else r).isSome := by
  rwa [if_neg hfew]

theorem height_pos (a : Expr Objects) : 0 < a.height := by
  cases a <;> simp only [height] <;> omega

private theorem not_lt_sameCalls (h : sameCalls * min a.height b.height ≤ limit) : ¬ limit < sameCalls := by
  have ha := a.height_pos
  have hb := b.height_pos
  simp only [sameCalls] at h ⊢
  omega

/-- A comparison comes back when the less high one of the expressions is not too high. -/
theorem same?_isSome_of_height (h : sameCalls * min a.height b.height ≤ limit) : (same? limit a b).isSome := by
  have hfew : ¬ limit < sameCalls := not_lt_sameCalls h
  induction a generalizing limit b with
  | literal i v => cases b <;> exact isSome_guard hfew rfl
  | unary i op e ih =>
    cases b with
    | unary j op' e' =>
      have he : sameCalls * min e.height e'.height ≤ limit - sameCalls := by
        simp only [sameCalls, height] at h ⊢
        omega
      exact isSome_guard hfew (isSome_ifTrue (isSome_operand (ih he (not_lt_sameCalls he))) _)
    | _ => exact isSome_guard hfew rfl
  | binary i l op r ihl ihr =>
    cases b with
    | binary j l' op' r' =>
      have hl : sameCalls * min l.height l'.height ≤ limit - sameCalls := by
        simp only [sameCalls, height] at h ⊢
        omega
      have hr : sameCalls * min r.height r'.height ≤ limit - sameCalls := by
        simp only [sameCalls, height] at h ⊢
        omega
      exact isSome_guard hfew (isSome_both (isSome_operand (ihl hl (not_lt_sameCalls hl)))
        (isSome_ifTrue (isSome_operand (ihr hr (not_lt_sameCalls hr))) _))
    | _ => exact isSome_guard hfew rfl
  | grouping i e ih =>
    cases b with
    | grouping j e' =>
      have he : sameCalls * min e.height e'.height ≤ limit - sameCalls := by
        simp only [sameCalls, height] at h ⊢
        omega
      exact isSome_guard hfew (isSome_operand (ih he (not_lt_sameCalls he)))
    | _ => exact isSome_guard hfew rfl

/-- An expression is found to be the same as itself however high it is. -/
theorem same?_self (h : sameCalls ≤ limit) (a : Expr Objects) : same? limit a a = some true := by
  refine (same?_decides limit a a).eq_some_true ?_ (Alike.refl a)
  have hfew : ¬ limit < sameCalls := Nat.not_lt.2 h
  have operand (e : Expr Objects) (compared : Option Bool) : (sameOperand? e e compared).isSome := by
    rw [sameOperand?, if_pos rfl]
    rfl
  cases a with
  | literal i v => exact isSome_guard hfew rfl
  | unary i op e => exact isSome_guard hfew (isSome_ifTrue (operand e _) _)
  | binary i l op r => exact isSome_guard hfew (isSome_both (operand l _) (isSome_ifTrue (operand r _) _))
  | grouping i e => exact isSome_guard hfew (operand e _)

end LoxSyntax.Expr
