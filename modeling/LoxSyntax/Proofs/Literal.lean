import LoxSyntax.Token
import Mathlib

/-!
# Comparing literals

Numbers are compared by value: the two zeros are equal, and what is not a number is equal to nothing, not even to
itself.  Apart from that, both comparisons of literals obey the laws of an equivalence.

* `agree_eq_same`: literals agree if they are the same when every truth value is written as a number.
* `same_comm`, `same_trans`: the laws for literals of one type; `agree_…` are those for all literals.
* `Token.same_iff`: when tokens are the same.
-/

namespace LoxSyntax

open Float.Model (UnpackedFloat)

/-! ### Numbers -/

private theorem beq_float_iff {x y : Float} :
    (x == y) = true ↔ x.toModel.unpack ≠ .notANumber ∧ y.toModel.unpack ≠ .notANumber ∧
      (x.toModel.unpack = y.toModel.unpack ∨
        (x.toModel.unpack = .zero .positive ∧ y.toModel.unpack = .zero .negative) ∨
        (x.toModel.unpack = .zero .negative ∧ y.toModel.unpack = .zero .positive)) :=
  UnpackedFloat.beq_iff_ne_notANumber_and_eq _ _

theorem beq_float_comm (x y : Float) : (x == y) = (y == x) := by
  rw [Bool.eq_iff_iff, beq_float_iff, beq_float_iff]
  constructor
  · rintro ⟨hx, hy, h⟩
    exact ⟨hy, hx, h.imp Eq.symm fun h => h.symm.imp And.symm And.symm⟩
  · rintro ⟨hy, hx, h⟩
    exact ⟨hx, hy, h.imp Eq.symm fun h => h.symm.imp And.symm And.symm⟩

theorem beq_float_trans {x y z : Float} (h : (x == y) = true) (h' : (y == z) = true) : (x == z) = true := by
  rw [beq_float_iff] at h h' ⊢
  obtain ⟨hx, -, h⟩ := h
  obtain ⟨-, hz, h'⟩ := h'
  refine ⟨hx, hz, ?_⟩
  rcases h with h | ⟨h₁, h₂⟩ | ⟨h₁, h₂⟩
  · rwa [h]
  · rw [h₂] at h'
    rw [h₁]
    rcases h' with h' | ⟨h', -⟩ | ⟨-, h'⟩
    · exact Or.inr (Or.inl ⟨rfl, h'.symm⟩)
    · cases h'
    · exact Or.inl h'.symm
  · rw [h₂] at h'
    rw [h₁]
    rcases h' with h' | ⟨-, h'⟩ | ⟨h', -⟩
    · exact Or.inr (Or.inr ⟨rfl, h'.symm⟩)
    · exact Or.inl h'.symm
    · cases h'

namespace Literal

/-! ### Literals of one type -/

theorem same_comm (a b : Literal) : a.same b = b.same a := by
  cases a <;> cases b <;> simp [same, Bool.beq_comm, beq_float_comm]

theorem same_trans {a b c : Literal} (h : a.same b = true) (h' : b.same c = true) : a.same c = true := by
  cases a <;> cases b <;> simp only [same, Bool.false_eq_true] at h <;> cases c <;>
    simp only [same, Bool.false_eq_true] at h' ⊢
  · simp_all
  · exact beq_float_trans h h'
  · simp_all

/-! ### Literals of any type -/

/-- A literal, with a number in the place of a truth value. -/
def numeric : Literal → Literal
  | bool b => number (boolNumber b)
  | a => a

theorem agree_eq_same (a b : Literal) : a.agree b = a.numeric.same b.numeric := by
  have hbool : ∀ b c : Bool, (b == c) = (boolNumber b == boolNumber c) := by decide
  cases a <;> cases b <;> first | rfl | exact hbool _ _

theorem agree_comm (a b : Literal) : a.agree b = b.agree a := by
  rw [agree_eq_same, agree_eq_same, same_comm]

theorem agree_trans {a b c : Literal} (h : a.agree b = true) (h' : b.agree c = true) : a.agree c = true := by
  rw [agree_eq_same] at *
  exact same_trans h h'

end Literal

/-! ### Tokens -/

namespace Token

theorem same_iff {s t : Token} {shared : Bool} :
    s.same t shared = true ↔ s.lexeme = t.lexeme ∧ s.kind = t.kind ∧
      (shared = true ∨ s.literal.agree t.literal = true) ∧ s.line = t.line := by
  simp [same, and_assoc]

end Token

end LoxSyntax
