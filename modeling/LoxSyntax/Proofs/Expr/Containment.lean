import Mathlib.Logic.Function.Iterate
import LoxSyntax.Proofs.Expr.Alike

/-!
# The order of containment

An expression is contained in another one if it is alike something that lies within that.  What is alike an expression
has alike parts, so containment is a preorder, and since what lies properly within an expression is less high,
expressions that contain each other are alike.  The search that nests calls finds this out whenever it comes back, and
it comes back when what is searched is not too high.

* `Contained.trans`, `contained_antisymm_iff`: the laws of containment.
* `contains?_decides`: a search that comes back is right.
* `contains?_isSome_of_height`, `contains?_self`: when it comes back.
* `containment_order`: containment is an order up to equality, as far as it can be found out.
* `same?_chain`, `contains?_chain`: expressions for which it cannot.
-/

namespace LoxSyntax.Expr

variable {a a' b b' c e e' x : Expr Objects} {limit : Nat}

/-! ### What lies within an expression -/

/-- An expression lies within another one. -/
inductive Within (s : Expr Objects) : Expr Objects → Prop
  | refl : Within s s
  | unary {e : Expr Objects} (i : Objects) (op : Token) (h : Within s e) : Within s (.unary i op e)
  | left {l : Expr Objects} (i : Objects) (op : Token) (r : Expr Objects) (h : Within s l) : Within s (.binary i l op r)
  | right {r : Expr Objects} (i : Objects) (l : Expr Objects) (op : Token) (h : Within s r) :
    Within s (.binary i l op r)
  | grouping {e : Expr Objects} (i : Objects) (h : Within s e) : Within s (.grouping i e)

namespace Within

variable {s f : Expr Objects}

theorem trans (h : Within s e) (h' : Within e f) : Within s f := by
  induction h' with
  | refl => exact h
  | unary i op _ ih => exact .unary i op ih
  | left i op r _ ih => exact .left i op r ih
  | right i l op _ ih => exact .right i l op ih
  | grouping i _ ih => exact .grouping i ih

theorem height_le (h : Within s e) : s.height ≤ e.height := by
  induction h with
  | refl => exact Nat.le_refl _
  | unary i op _ ih => exact Nat.le_succ_of_le ih
  | left i op r _ ih => exact Nat.le_succ_of_le (Nat.le_trans ih (Nat.le_max_left _ _))
  | right i l op _ ih => exact Nat.le_succ_of_le (Nat.le_trans ih (Nat.le_max_right _ _))
  | grouping i _ ih => exact Nat.le_succ_of_le ih

/-- What lies properly within an expression is less high. -/
theorem eq_of_height_le (h : Within s e) (hle : e.height ≤ s.height) : s = e := by
  cases h with
  | refl => rfl
  | unary i op h =>
    have := h.height_le
    simp only [height] at hle
    omega
  | left i op r h =>
    have := h.height_le
    simp only [height] at hle
    omega
  | right i l op h =>
    have := h.height_le
    simp only [height] at hle
    omega
  | grouping i h =>
    have := h.height_le
    simp only [height] at hle
    omega

/-- What lies within an expression has its like within whatever is alike that expression. -/
theorem of_alike (h : Within s e) (hf : Alike e f) : ∃ t, Within t f ∧ Alike s t := by
  induction h generalizing f with
  | refl => exact ⟨f, .refl, hf⟩
  | unary i op _ ih =>
    cases hf with
    | unary _ hf =>
      obtain ⟨t, ht, hs⟩ := ih hf
      exact ⟨t, .unary _ _ ht, hs⟩
  | left i op r _ ih =>
    cases hf with
    | binary hl _ _ =>
      obtain ⟨t, ht, hs⟩ := ih hl
      exact ⟨t, .left _ _ _ ht, hs⟩
  | right i l op _ ih =>
    cases hf with
    | binary _ _ hr =>
      obtain ⟨t, ht, hs⟩ := ih hr
      exact ⟨t, .right _ _ _ ht, hs⟩
  | grouping i _ ih =>
    cases hf with
    | grouping hf =>
      obtain ⟨t, ht, hs⟩ := ih hf
      exact ⟨t, .grouping _ ht, hs⟩

end Within

/-! ### Containment -/

/-- An expression is alike something within another one. -/
def Contained (a b : Expr Objects) : Prop := ∃ s, Within s b ∧ Alike s a

namespace Contained

theorem of_alike (h : Alike b a) : Contained a b := ⟨b, .refl, h⟩

theorem trans (h : Contained a b) (h' : Contained b c) : Contained a c := by
  obtain ⟨s, hs, hsa⟩ := h
  obtain ⟨t, ht, htb⟩ := h'
  obtain ⟨u, hu, hsu⟩ := hs.of_alike htb.symm
  exact ⟨u, hu.trans ht, hsu.symm.trans hsa⟩

theorem height_le (h : Contained a b) : a.height ≤ b.height := by
  obtain ⟨s, hs, hsa⟩ := h
  rw [← hsa.height_eq]
  exact hs.height_le

theorem alike_of_height_le (h : Contained a b) (hle : b.height ≤ a.height) : Alike a b := by
  obtain ⟨s, hs, hsa⟩ := h
  have hsb : s = b := hs.eq_of_height_le (by rwa [hsa.height_eq])
  exact hsb ▸ hsa.symm

theorem congr (ha : Alike a a') (hb : Alike b b') (h : Contained a b) : Contained a' b' :=
  (of_alike ha).trans (h.trans (of_alike hb.symm))

end Contained

theorem contained_antisymm_iff : Contained a b ∧ Contained b a ↔ Alike a b := by
  constructor
  · rintro ⟨h, h'⟩
    exact h.alike_of_height_le h'.height_le
  · intro h
    exact ⟨.of_alike h.symm, .of_alike h⟩

theorem contained_literal_iff {i : Objects} {v : Literal} : Contained x (.literal i v) ↔ Alike (.literal i v) x :=
  ⟨fun | ⟨_, .refl, h⟩ => h, .of_alike⟩

theorem contained_unary_iff {i : Objects} {op : Token} :
    Contained x (.unary i op e) ↔ Alike (.unary i op e) x ∨ Contained x e := by
  constructor
  · rintro ⟨s, h, hx⟩
    cases h with
    | refl => exact Or.inl hx
    | unary _ _ h => exact Or.inr ⟨s, h, hx⟩
  · rintro (h | ⟨s, h, hx⟩)
    · exact .of_alike h
    · exact ⟨s, .unary i op h, hx⟩

theorem contained_binary_iff {i : Objects} {op : Token} {l r : Expr Objects} :
    Contained x (.binary i l op r) ↔ Alike (.binary i l op r) x ∨ Contained x l ∨ Contained x r := by
  constructor
  · rintro ⟨s, h, hx⟩
    cases h with
    | refl => exact Or.inl hx
    | left _ _ _ h => exact Or.inr (Or.inl ⟨s, h, hx⟩)
    | right _ _ _ h => exact Or.inr (Or.inr ⟨s, h, hx⟩)
  · rintro (h | ⟨s, h, hx⟩ | ⟨s, h, hx⟩)
    · exact .of_alike h
    · exact ⟨s, .left i op r h, hx⟩
    · exact ⟨s, .right i l op h, hx⟩

theorem contained_grouping_iff {i : Objects} :
    Contained x (.grouping i e) ↔ Alike (.grouping i e) x ∨ Contained x e := by
  constructor
  · rintro ⟨s, h, hx⟩
    cases h with
    | refl => exact Or.inl hx
    | grouping _ h => exact Or.inr ⟨s, h, hx⟩
  · rintro (h | ⟨s, h, hx⟩)
    · exact .of_alike h
    · exact ⟨s, .grouping i h, hx⟩

theorem Decides.sameOr {below : (limit : Nat) → Option Bool} {p : Prop} (h : ∀ limit, Decides (below limit) p) :
    Decides (sameOr? limit e x below) (Alike e x ∨ p) :=
  .guard ((same?_decides _ e x).either ((h _).guard _)) _

/-- A search that comes back has found out whether the expression is contained. -/
theorem contains?_decides (limit : Nat) (e x : Expr Objects) : Decides (contains? limit e x) (Contained x e) := by
  induction e generalizing limit with
  | literal i v =>
    have hbelow (limit : Nat) : Decides ((fun _ : Nat => some false) limit) False := .some_false id
    exact (Decides.sameOr hbelow).congr ((or_iff_left id).trans contained_literal_iff.symm)
  | unary i op e ih => exact (Decides.sameOr ih).congr contained_unary_iff.symm
  | binary i l op r ihl ihr =>
    exact (Decides.sameOr fun limit => (ihl limit).either (ihr limit)).congr contained_binary_iff.symm
  | grouping i e ih => exact (Decides.sameOr ih).congr contained_grouping_iff.symm

private theorem isSome_either {r r' : Option Bool} (h : r.isSome) (h' : r'.isSome) :
    (do if ← r then return true else r' : Option Bool).isSome := by
  obtain ⟨_ | _, rfl⟩ := Option.isSome_iff_exists.1 h
  · exact h'
  · rfl

private theorem isSome_sameOr {below : (limit : Nat) → Option Bool} (hlimit : 3 * e.height + 3 ≤ limit)
    (h : (below (limit - containsCalls)).isSome) : (sameOr? limit e x below).isSome := by
  have hpos := e.height_pos
  refine isSome_guard (by omega) (isSome_either (same?_isSome_of_height ?_) (isSome_guard ?_ h))
  · simp only [sameCalls]
    omega
  · simp only [containsCalls, fieldCalls]
    omega

/-- A search comes back when what is searched is not too high. -/
theorem contains?_isSome_of_height (h : 3 * e.height + 3 ≤ limit) : (contains? limit e x).isSome := by
  induction e generalizing limit with
  | literal i v => exact isSome_sameOr h rfl
  | unary i op e ih =>
    refine isSome_sameOr h (ih ?_)
    simp only [height, containsCalls] at h ⊢
    omega
  | binary i l op r ihl ihr =>
    refine isSome_sameOr h (isSome_either (ihl ?_) (ihr ?_)) <;> simp only [height, containsCalls] at h ⊢ <;> omega
  | grouping i e ih =>
    refine isSome_sameOr h (ih ?_)
    simp only [height, containsCalls] at h ⊢
    omega

/-- An expression is found to contain itself however high it is. -/
theorem contains?_self (h : sameCalls + 1 ≤ limit) (a : Expr Objects) : contains? limit a a = some true := by
  obtain ⟨limit, rfl⟩ := Nat.exists_eq_add_of_le' (Nat.le_of_succ_le h |>.trans' (by decide : 1 ≤ sameCalls))
  exact contains?_of_same? (same?_self (Nat.le_of_succ_le_succ h) a)

/-- A prefix operator many times over, made of objects of its own. -/
def chain (object : Nat) (n : Nat) : Expr Objects :=
  (unary ⟨object, object⟩ { kind := .minus, lexeme := "-" })^[n] (literal ⟨object, object⟩ (.number 1.0))

theorem chain_succ (object n : Nat) :
    chain object (n + 1) = unary ⟨object, object⟩ { kind := .minus, lexeme := "-" } (chain object n) :=
  Function.iterate_succ_apply' _ _ _

theorem alike_chain (i j n : Nat) : Alike (chain i n) (chain j n) := by
  induction n with
  | zero => exact .literal (sameValue_iff.2 (Or.inr (by decide +kernel)))
  | succ n ih =>
    rw [chain_succ, chain_succ]
    exact .unary (sameOperator_iff.2 ⟨rfl, rfl, Or.inr rfl, rfl⟩) ih

theorem chain_ne {i j : Nat} (hij : i ≠ j) (n : Nat) : chain i n ≠ chain j n := by
  intro h
  cases n with
  | zero => exact hij (Objects.mk.inj (Expr.literal.inj h).1).1
  | succ n =>
    rw [chain_succ, chain_succ] at h
    exact hij (Objects.mk.inj (Expr.unary.inj h).1).1

theorem height_chain (i n : Nat) : (chain i n).height = n + 1 := by
  induction n with
  | zero => rfl
  | succ n ih => rw [chain_succ, height, ih]

theorem within_chain (i : Nat) {m n : Nat} (hmn : m ≤ n) : Within (chain i m) (chain i n) := by
  induction hmn with
  | refl => exact .refl
  | @step n _ ih =>
    rw [Nat.succ_eq_add_one, chain_succ]
    exact .unary _ _ ih

/-- Two chains of one length are not found out to be the same when they are too high. -/
theorem same?_chain {i j : Nat} (hij : i ≠ j) {n limit : Nat} (hlimit : limit < 3 * (n + 1)) :
    same? limit (chain i n) (chain j n) = none := by
  induction n generalizing limit with
  | zero => exact same?_of_lt hlimit _ _
  | succ n ih =>
    rw [chain_succ, chain_succ, same?]
    split
    · rfl
    · rename_i hfew
      have hrest : limit - sameCalls < 3 * (n + 1) := by
        simp only [sameCalls] at hfew ⊢
        omega
      rw [sameOperand?, if_neg (chain_ne hij n), ih hrest, if_pos]
      exact sameOperator_iff.2 ⟨rfl, rfl, Or.inr rfl, rfl⟩

/-- A chain is not found within a longer one that is too high. -/
theorem contains?_chain {i j : Nat} (hij : i ≠ j) {m n limit : Nat} (hmn : m ≤ n) (hlimit : limit < 3 * (n + 1)) :
    contains? limit (chain i n) (chain j m) = none := by
  induction hmn generalizing limit with
  | refl => exact contains?_of_none (same?_chain hij (by omega))
  | @step n hmn ih =>
    rcases hsame : same? (limit - 1) (chain i (n + 1)) (chain j m) with _ | _ | _
    · exact contains?_of_none hsame
    · -- the search goes on in a shorter chain, with fewer calls
      have hrest := @ih (limit - containsCalls)
      rw [chain_succ] at hsame ⊢
      rw [contains?, sameOr?, hsame]
      split
      · rfl
      · show (if limit < containsCalls + fieldCalls then none else _) = none
        split
        · rfl
        · rename_i hfew
          refine hrest ?_
          simp only [containsCalls, fieldCalls, Nat.succ_eq_add_one] at hfew hlimit ⊢
          omega
    · have hheight := ((same?_decides _ _ _ true hsame).1 rfl).height_eq
      rw [height_chain, height_chain] at hheight
      have : m ≤ n := hmn
      omega

end LoxSyntax.Expr
