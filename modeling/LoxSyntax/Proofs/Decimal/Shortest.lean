import LoxSyntax.Decimal.Shortest
import Mathlib.Algebra.Order.Field.Power
import Mathlib.Data.Rat.Cast.Order
import Mathlib.Tactic.Linarith
import Mathlib.Tactic.NormNum
import Mathlib.Tactic.Positivity
import Mathlib.Tactic.Ring

/-!
# The shortest decimal determines the double

The decimal that is selected for a positive double lies in the interval of reals that round to it.  The intervals of
two doubles have at most an end in common, and then only one of them owns it.  So no decimal is selected for two
doubles.

Seventeen digits are enough because a grid with that many digits is finer than the interval is wide.

* `binaryLt_iff`, `decimalLt_iff`, `readsBack_iff`: the comparisons of integers as comparisons of values.
* `Binary.Holds.unique`: a value lies in the interval of one double.
* `Binary.holds_shortest`: what is selected lies in the interval.
* `Binary.eq_of_shortest_value_eq`: the selected decimal determines the double.
-/

namespace LoxSyntax.Decimal

/-! ### Comparisons -/

/-- The value of a decimal. -/
def Scientific.value (d : Scientific) : ℚ := d.digits * 10 ^ d.exponent

private theorem zpow_mul_powDen {b : Nat} (hb : 0 < b) (e : Int) : (b : ℚ) ^ e * powDen b e = powNum b e := by
  have hb' : (b : ℚ) ≠ 0 := by positivity
  simp only [powDen, powNum, Nat.pow_eq, Nat.cast_pow, ← zpow_natCast, ← zpow_add₀ hb']
  congr 1
  omega

private theorem cross_lt_iff {a d : Nat} {q p : Int} :
    (a * powNum 2 q * powDen 10 p < d * powNum 10 p * powDen 2 q ↔ (a : ℚ) * 2 ^ q < d * 10 ^ p) ∧
      (d * powNum 10 p * powDen 2 q < a * powNum 2 q * powDen 10 p ↔ (d : ℚ) * 10 ^ p < a * 2 ^ q) := by
  have hpos : (0 : ℚ) < powDen 2 q * powDen 10 p := by
    have h₂ := powDen_pos (show 0 < 2 by decide) q
    have h₁₀ := powDen_pos (show 0 < 10 by decide) p
    positivity
  have hbinary : ((a * powNum 2 q * powDen 10 p : Nat) : ℚ) = a * 2 ^ q * (powDen 2 q * powDen 10 p) := by
    push_cast
    rw [← zpow_mul_powDen (show 0 < 2 by decide) q]
    push_cast
    ring
  have hdecimal : ((d * powNum 10 p * powDen 2 q : Nat) : ℚ) = d * 10 ^ p * (powDen 2 q * powDen 10 p) := by
    push_cast
    rw [← zpow_mul_powDen (show 0 < 10 by decide) p]
    push_cast
    ring
  constructor
  · rw [← Nat.cast_lt (α := ℚ), hbinary, hdecimal, mul_lt_mul_iff_of_pos_right hpos]
  · rw [← Nat.cast_lt (α := ℚ), hbinary, hdecimal, mul_lt_mul_iff_of_pos_right hpos]

theorem binaryLt_iff {a d : Nat} {q p : Int} : binaryLt a q d p = true ↔ (a : ℚ) * 2 ^ q < d * 10 ^ p :=
  decide_eq_true_iff.trans cross_lt_iff.1

theorem decimalLt_iff {a d : Nat} {q p : Int} : decimalLt d p a q = true ↔ (d : ℚ) * 10 ^ p < a * 2 ^ q :=
  decide_eq_true_iff.trans cross_lt_iff.2

theorem floorDiv_mul_pow_le (a : Nat) (q p : Int) : (floorDiv a q p : ℚ) * 10 ^ p ≤ a * 2 ^ q := by
  rw [← not_lt, ← cross_lt_iff.1, not_lt, Nat.mul_assoc]
  exact floorDiv_mul_le a q p

theorem lt_succ_floorDiv_mul_pow (a : Nat) (q p : Int) : (a : ℚ) * 2 ^ q < (floorDiv a q p + 1 : Nat) * 10 ^ p := by
  rw [← cross_lt_iff.1, Nat.mul_assoc (floorDiv a q p + 1)]
  exact lt_succ_floorDiv_mul a q p

namespace Binary

/-! ### The interval of a value -/

/-- What a quarter of a step weighs. -/
def quarter (v : Binary) : ℚ := 2 ^ (v.exponent - 2)

/-- The value. -/
def value (v : Binary) : ℚ := 4 * v.mantissa * v.quarter

/-- The lower end of the interval. -/
def lower (v : Binary) : ℚ := (4 * v.mantissa - if v.narrowBelow then 1 else 2) * v.quarter

/-- The upper end of the interval. -/
def upper (v : Binary) : ℚ := (4 * v.mantissa + 2) * v.quarter

/-- The interval holds a value. -/
def Holds (v : Binary) (x : ℚ) : Prop :=
  if v.mantissa % 2 = 0 then v.lower ≤ x ∧ x ≤ v.upper else v.lower < x ∧ x < v.upper

variable {v w : Binary} {x : ℚ}

theorem quarter_pos (v : Binary) : 0 < v.quarter := by
  unfold quarter
  positivity

theorem value_eq (v : Binary) : v.value = v.mantissa * 2 ^ v.exponent := by
  have h : (2 : ℚ) ^ v.exponent = v.quarter * 4 := by
    rw [quarter, show v.exponent = v.exponent - 2 + 2 by omega, zpow_add₀ (by norm_num)]
    norm_num
  rw [value, h]
  ring

theorem lower_lt_value (v : Binary) : v.lower < v.value := by
  have h := v.quarter_pos
  rw [lower, value]
  split <;> nlinarith

theorem value_lt_upper (v : Binary) : v.value < v.upper := by
  have h := v.quarter_pos
  rw [upper, value]
  nlinarith

theorem Holds.le (h : v.Holds x) : v.lower ≤ x ∧ x ≤ v.upper := by
  unfold Holds at h
  split at h
  · exact h
  · exact ⟨h.1.le, h.2.le⟩

theorem Holds.lt (h : v.Holds x) (hodd : v.mantissa % 2 = 1) : v.lower < x ∧ x < v.upper := by
  rwa [Holds, if_neg (by omega)] at h

theorem holds_of_lt (hl : v.lower < x) (hu : x < v.upper) : v.Holds x := by
  unfold Holds
  split
  · exact ⟨hl.le, hu.le⟩
  · exact ⟨hl, hu⟩

theorem readsBack_iff (hm : 0 < v.mantissa) {d : Nat} {p : Int} :
    v.readsBack d p = true ↔ v.Holds (d * 10 ^ p) := by
  have hlow : ((4 * v.mantissa - (if v.narrowBelow then 1 else 2) : Nat) : ℚ) * 2 ^ (v.exponent - 2) = v.lower := by
    rw [lower, quarter, Nat.cast_sub (by split <;> omega)]
    push_cast
    rfl
  have hhigh : ((4 * v.mantissa + 2 : Nat) : ℚ) * 2 ^ (v.exponent - 2) = v.upper := by
    rw [upper, quarter]
    push_cast
    rfl
  unfold readsBack Holds
  dsimp only
  split
  · rw [Bool.and_eq_true, Bool.not_eq_true', Bool.not_eq_true', ← Bool.not_eq_true, ← Bool.not_eq_true, decimalLt_iff,
      binaryLt_iff, hlow, hhigh, not_lt, not_lt]
  · rw [Bool.and_eq_true, decimalLt_iff, binaryLt_iff, hlow, hhigh]

/-! ### The positive doubles -/

/-- The positive values of doubles. -/
structure IsDouble (v : Binary) : Prop where
  mantissa_pos : 0 < v.mantissa
  mantissa_lt : v.mantissa < 2 ^ 53
  exponent_ge : -1074 ≤ v.exponent
  full : v.exponent = -1074 ∨ 2 ^ 52 ≤ v.mantissa
  narrowBelow_iff : v.narrowBelow = true ↔ v.mantissa = 2 ^ 52 ∧ v.exponent ≠ -1074

/-- The interval of `v` ends before that of `w` begins, or just there, if one of them does not own its end. -/
def Precedes (v w : Binary) : Prop :=
  v.upper < w.lower ∨ v.upper ≤ w.lower ∧ (v.mantissa % 2 = 1 ∨ w.mantissa % 2 = 1)

theorem Precedes.not_holds (h : v.Precedes w) (hx : v.Holds x) : ¬ w.Holds x := by
  intro hx'
  have hle := hx.le.2
  have hle' := hx'.le.1
  rcases h with hlt | ⟨heq, hodd | hodd⟩
  · linarith
  · have := (hx.lt hodd).2
    linarith
  · have := (hx'.lt hodd).1
    linarith

theorem precedes_of_mantissa_lt (hexponent : v.exponent = w.exponent) (hm : v.mantissa < w.mantissa) :
    v.Precedes w := by
  have hpos := v.quarter_pos
  have hq : w.quarter = v.quarter := by rw [quarter, quarter, hexponent]
  have hm' : (v.mantissa : ℚ) + 1 ≤ w.mantissa := by exact_mod_cast hm
  rw [Precedes, upper, lower, hq]
  by_cases hn : w.narrowBelow = true
  · refine Or.inl ?_
    rw [if_pos hn]
    nlinarith
  · rw [if_neg hn]
    by_cases hnext : w.mantissa = v.mantissa + 1
    · exact Or.inr ⟨by nlinarith, by omega⟩
    · have hm'' : (v.mantissa : ℚ) + 2 ≤ w.mantissa := by
        have hle : v.mantissa + 2 ≤ w.mantissa := by omega
        exact_mod_cast hle
      refine Or.inl ?_
      nlinarith

/-- At a greater exponent the quarters are at least twice as large. -/
private theorem two_mul_quarter_le (h : v.exponent < w.exponent) : 2 * v.quarter ≤ w.quarter := by
  have hle : (2 : ℚ) ^ (v.exponent - 2 + 1) ≤ 2 ^ (w.exponent - 2) :=
    zpow_le_zpow_right₀ (by norm_num) (by omega)
  rwa [zpow_add_one₀ (by norm_num), mul_comm] at hle

theorem precedes_of_exponent_lt (hv : v.IsDouble) (hw : w.IsDouble) (h : v.exponent < w.exponent) :
    v.Precedes w := by
  have hpos := v.quarter_pos
  have htwo := two_mul_quarter_le h
  have hne : w.exponent ≠ -1074 := by
    have := hv.exponent_ge
    omega
  have hfull := hw.full.resolve_left hne
  have hlt := hv.mantissa_lt
  rw [Precedes, upper, lower]
  by_cases hn : w.narrowBelow = true
  · have hmw : (w.mantissa : ℚ) = 2 ^ 52 := by exact_mod_cast (hw.narrowBelow_iff.1 hn).1
    rw [if_pos hn, hmw]
    -- the last of the narrow steps below a power of two belongs to an odd mantissa
    by_cases hlast : v.mantissa = 2 ^ 53 - 1
    · have hmv : (v.mantissa : ℚ) + 1 = 2 ^ 53 := by
        have heq : v.mantissa + 1 = 2 ^ 53 := by omega
        exact_mod_cast heq
      refine Or.inr ⟨?_, Or.inl (by omega)⟩
      nlinarith
    · have hmv : (v.mantissa : ℚ) + 2 ≤ 2 ^ 53 := by
        have hle : v.mantissa + 2 ≤ 2 ^ 53 := by omega
        exact_mod_cast hle
      refine Or.inl ?_
      nlinarith
  · have hmw : (2 ^ 52 + 1 : ℚ) ≤ w.mantissa := by
      have hne' : w.mantissa ≠ 2 ^ 52 := fun e => hn (hw.narrowBelow_iff.2 ⟨e, hne⟩)
      have hle : 2 ^ 52 + 1 ≤ w.mantissa := by omega
      exact_mod_cast hle
    have hmv : (v.mantissa : ℚ) ≤ 2 ^ 53 := by exact_mod_cast hlt.le
    rw [if_neg hn]
    refine Or.inl ?_
    nlinarith

/-- A value lies in the interval of one double. -/
theorem Holds.unique (hv : v.IsDouble) (hw : w.IsDouble) (hx : v.Holds x) (hx' : w.Holds x) : v = w := by
  have hexponent : v.exponent = w.exponent := by
    rcases Int.lt_trichotomy v.exponent w.exponent with h | h | h
    · exact absurd hx' ((precedes_of_exponent_lt hv hw h).not_holds hx)
    · exact h
    · exact absurd hx ((precedes_of_exponent_lt hw hv h).not_holds hx')
  have hmantissa : v.mantissa = w.mantissa := by
    rcases Nat.lt_trichotomy v.mantissa w.mantissa with h | h | h
    · exact absurd hx' ((precedes_of_mantissa_lt hexponent h).not_holds hx)
    · exact h
    · exact absurd hx ((precedes_of_mantissa_lt hexponent.symm h).not_holds hx')
  have hnarrow : v.narrowBelow = w.narrowBelow := by
    rw [Bool.eq_iff_iff, hv.narrowBelow_iff, hw.narrowBelow_iff, hmantissa, hexponent]
  cases v
  cases w
  simp_all

/-! ### Seventeen digits -/

/-- On a grid that is finer than the interval is wide, one of the two neighbours of the value reads back. -/
private theorem isSome_onGrid? (hm : 0 < v.mantissa) {p : Int} (hp : (10 : ℚ) ^ p < v.upper - v.lower) :
    (v.onGrid? p).isSome = true := by
  have hbelow := floorDiv_mul_pow_le v.mantissa v.exponent p
  have habove := lt_succ_floorDiv_mul_pow v.mantissa v.exponent p
  have hlower := v.lower_lt_value
  have hupper := v.value_lt_upper
  rw [← value_eq] at hbelow habove
  have hreads : v.readsBack (floorDiv v.mantissa v.exponent p) p = true ∨
      v.readsBack (floorDiv v.mantissa v.exponent p + 1) p = true := by
    rw [readsBack_iff hm, readsBack_iff hm]
    by_cases h : v.lower < (floorDiv v.mantissa v.exponent p : ℚ) * 10 ^ p
    · exact Or.inl (holds_of_lt h (hbelow.trans_lt hupper))
    · refine Or.inr (holds_of_lt (hlower.trans habove) ?_)
      push_cast
      linarith
  unfold onGrid?
  rcases hreads with h | h
  · simp only [h]
    split <;> simp_all
  · simp only [h]
    split <;> simp_all

private theorem pow_digitCount_le (fuel : Nat) {n : Nat} (hn : 0 < n) : 10 ^ (digitCount fuel n - 1) ≤ n := by
  induction fuel generalizing n with
  | zero => exact hn
  | succ fuel ih =>
    rw [digitCount]
    split
    · exact hn
    · have h := ih (n := n / 10) (by omega)
      cases hc : digitCount fuel (n / 10) with
      | zero => exact hn
      | succ c =>
        rw [hc, Nat.add_sub_cancel] at h
        rw [Nat.add_sub_cancel, Nat.pow_succ]
        omega

/-- Every positive double is at least `10^-324`. -/
private theorem pow_le_value (hv : v.IsDouble) : (10 : ℚ) ^ (-324 : Int) ≤ v.value := by
  have hpow : (2 : ℚ) ^ 1074 ≤ 10 ^ 324 := by
    calc (2 : ℚ) ^ 1074 = (2 ^ 93) ^ 11 * 2 ^ 51 := by rw [← pow_mul, ← pow_add]
      _ ≤ (10 ^ 28) ^ 11 * 10 ^ 16 := by gcongr <;> norm_num
      _ = 10 ^ 324 := by rw [← pow_mul, ← pow_add]
  have hstep : (2 : ℚ) ^ (-1074 : Int) ≤ 2 ^ v.exponent := zpow_le_zpow_right₀ (by norm_num) hv.exponent_ge
  have hone : (1 : ℚ) ≤ v.mantissa := by exact_mod_cast hv.mantissa_pos
  have hsmall : (10 : ℚ) ^ (-324 : Int) ≤ 2 ^ (-1074 : Int) := by
    rw [zpow_neg, zpow_neg]
    exact inv_anti₀ (by positivity) (by exact_mod_cast hpow)
  rw [value_eq]
  calc (10 : ℚ) ^ (-324 : Int) ≤ 1 * 2 ^ v.exponent := by linarith
    _ ≤ v.mantissa * 2 ^ v.exponent := by gcongr

theorem pow_leading_le (hv : v.IsDouble) : (10 : ℚ) ^ v.leading ≤ v.value := by
  let n := floorDiv v.mantissa v.exponent (-324)
  have hle : (n : ℚ) * 10 ^ (-324 : Int) ≤ v.value := by
    rw [value_eq]
    exact floorDiv_mul_pow_le _ _ _
  have hn : 0 < n := by
    have hlt := lt_succ_floorDiv_mul_pow v.mantissa v.exponent (-324)
    rw [← value_eq] at hlt
    have h : 1 * (10 : ℚ) ^ (-324 : Int) < (n + 1 : Nat) * 10 ^ (-324 : Int) := by
      rw [one_mul]
      exact (pow_le_value hv).trans_lt hlt
    rw [mul_lt_mul_iff_of_pos_right (by positivity)] at h
    have h' : 1 < n + 1 := by exact_mod_cast h
    omega
  have hcount : 0 < digitCount 700 n := by
    rw [digitCount]
    split <;> omega
  have hleading : v.leading = (digitCount 700 n - 1 : Nat) + -324 := by
    show (digitCount 700 n : Int) - 1 - 324 = _
    omega
  have hpow : ((10 ^ (digitCount 700 n - 1) : Nat) : ℚ) ≤ n := by exact_mod_cast pow_digitCount_le 700 hn
  rw [Nat.cast_pow] at hpow
  rw [hleading, zpow_add₀ (by norm_num), zpow_natCast]
  refine le_trans ?_ hle
  gcongr
  exact hpow

/-- With seventeen digits the grid is finer than the interval is wide. -/
private theorem pow_last_lt (hv : v.IsDouble) : (10 : ℚ) ^ (v.leading - 16) < v.upper - v.lower := by
  have hleading := pow_leading_le hv
  have hsplit : (10 : ℚ) ^ v.leading = 10 ^ (v.leading - 16) * 10 ^ 16 := by
    rw [← zpow_natCast, ← zpow_add₀ (by norm_num)]
    congr 1
    omega
  have hpos := v.quarter_pos
  rw [hsplit, value] at hleading
  rw [upper, lower]
  by_cases hn : v.narrowBelow = true
  · have hm : (v.mantissa : ℚ) = 2 ^ 52 := by
      rw [(hv.narrowBelow_iff.1 hn).1]
      norm_num
    rw [if_pos hn]
    rw [hm] at hleading ⊢
    linarith
  · have hm : (v.mantissa : ℚ) ≤ 2 ^ 53 := by exact_mod_cast hv.mantissa_lt.le
    rw [if_neg hn]
    nlinarith

private theorem isSome_search {grids : Nat} {p q : Int} (hq : (v.onGrid? q).isSome = true) (hle : q ≤ p)
    (hlt : p < q + grids) : (v.search grids p).isSome = true := by
  induction grids generalizing p with
  | zero => omega
  | succ grids ih =>
    rw [search, Option.isSome_or]
    rcases Int.lt_or_eq_of_le hle with h | rfl
    · rw [ih (by omega) (by omega), Bool.or_true]
    · rw [hq, Bool.true_or]

theorem holds_shortest (hv : v.IsDouble) : v.Holds v.shortest.value := by
  have hsome : (v.search 17 v.leading).isSome = true :=
    isSome_search (isSome_onGrid? hv.mantissa_pos (pow_last_lt hv)) (by omega) (by omega)
  obtain ⟨d, hd⟩ := Option.isSome_iff_exists.1 hsome
  have hreads := readsBack_of_search hd
  rw [readsBack_iff hv.mantissa_pos] at hreads
  rwa [shortest, hd, Option.getD_some]

/-- The selected decimal determines the double. -/
theorem eq_of_shortest_value_eq (hv : v.IsDouble) (hw : w.IsDouble) (h : v.shortest.value = w.shortest.value) :
    v = w :=
  Holds.unique hv hw (holds_shortest hv) (h ▸ holds_shortest hw)

theorem shortest_digits_pos (hv : v.IsDouble) : 0 < v.shortest.digits := by
  have hpos : 0 < v.lower := by
    have h := v.quarter_pos
    have hone : (1 : ℚ) ≤ v.mantissa := by exact_mod_cast hv.mantissa_pos
    rw [lower]
    split <;> nlinarith
  refine Nat.pos_of_ne_zero fun h => ?_
  have hle := (holds_shortest hv).le.1
  rw [Scientific.value, h, Nat.cast_zero, zero_mul] at hle
  linarith

end Binary

end LoxSyntax.Decimal
