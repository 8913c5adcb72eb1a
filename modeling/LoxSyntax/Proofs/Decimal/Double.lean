import LoxSyntax.Proofs.Decimal.Shortest

/-!
# The fields of a double

A double is its sign, its exponent field and its fraction field.  Its magnitude tells both fields, except of what is not
a number; and this there is only once.

* `hasFields`: the fields of every double, by its magnitude.
* `eq_of_magnitude_eq`: sign and magnitude determine a double.
-/

namespace LoxSyntax.Decimal

open Float.Model (Format)
open Float.Model.UnpackedFloat (packedNaN unpackExponent unpackMantissa)

/-- The exponent field of a double. -/
def exponentField (x : Float) : Nat := x.toBits.toNat / exponentWeight % exponentCount

/-- The fraction field of a double. -/
def fractionField (x : Float) : Nat := x.toBits.toNat % exponentWeight

/-- The fields of a positive double. -/
def Binary.fields (v : Binary) : Nat × Nat :=
  if v.mantissa < exponentWeight then (0, v.mantissa) else ((v.exponent + 1075).toNat, v.mantissa - exponentWeight)

/-- What the fields of a double are for its magnitude. -/
inductive HasFields : Magnitude → (exponent fraction : Nat) → Prop
  | zero : HasFields .zero 0 0
  | finite {v : Binary} (h : v.IsDouble) : HasFields (.finite v) v.fields.1 v.fields.2
  | infinite : HasFields .infinite 2047 0
  | notANumber {f : Nat} (h : f ≠ 0) : HasFields .notANumber 2047 f

private theorem hasFields_subnormal {f : Nat} (hf : f < 2 ^ 52) (hne : f ≠ 0) :
    HasFields (.finite ⟨f, -1074, false⟩) 0 f := by
  have hfields : (⟨f, -1074, false⟩ : Binary).fields = (0, f) := if_pos hf
  have hdouble : (⟨f, -1074, false⟩ : Binary).IsDouble :=
    { mantissa_pos := Nat.pos_of_ne_zero hne
      mantissa_lt := show f < 2 ^ 53 by omega
      exponent_ge := Int.le_refl _
      full := .inl rfl
      narrowBelow_iff := by simp }
  have key := HasFields.finite hdouble
  rwa [hfields] at key

private theorem hasFields_normal {e f : Nat} (hf : f < 2 ^ 52) (hne : e ≠ 0) :
    HasFields (.finite ⟨f + exponentWeight, (e : Int) - 1075, f == 0 && decide (1 < e)⟩) e f := by
  let v : Binary := ⟨f + exponentWeight, (e : Int) - 1075, f == 0 && decide (1 < e)⟩
  have hw : exponentWeight = 2 ^ 52 := rfl
  have hfields : v.fields = (e, f) := by
    have hexponent : ((e : Int) - 1075 + 1075).toNat = e := by omega
    show (if f + exponentWeight < exponentWeight then _ else (((e : Int) - 1075 + 1075).toNat, _)) = _
    rw [if_neg (by omega), hexponent, Nat.add_sub_cancel]
  have hnarrow : v.narrowBelow = true ↔ f + 2 ^ 52 = 2 ^ 52 ∧ (e : Int) - 1075 ≠ -1074 := by
    show (f == 0 && decide (1 < e)) = true ↔ _
    rw [Bool.and_eq_true, beq_iff_eq, decide_eq_true_eq]
    omega
  have hdouble : v.IsDouble :=
    { mantissa_pos := show 0 < f + exponentWeight by omega
      mantissa_lt := show f + exponentWeight < 2 ^ 53 by omega
      exponent_ge := show -1074 ≤ (e : Int) - 1075 by omega
      full := .inr (show 2 ^ 52 ≤ f + exponentWeight by omega)
      narrowBelow_iff := hnarrow }
  have key := HasFields.finite hdouble
  rwa [hfields] at key

theorem hasFields (x : Float) : HasFields (magnitude x) (exponentField x) (fractionField x) := by
  have he : exponentField x < 2048 := Nat.mod_lt _ (by decide)
  have hf : fractionField x < 2 ^ 52 := Nat.mod_lt _ (by decide)
  have hm : magnitude x = if exponentField x + 1 = 2048 then if fractionField x = 0 then .infinite else .notANumber
      else if exponentField x = 0 then if fractionField x = 0 then .zero else .finite ⟨fractionField x, -1074, false⟩
      else .finite ⟨fractionField x + exponentWeight, (exponentField x : Int) - 1075,
        fractionField x == 0 && decide (1 < exponentField x)⟩ := rfl
  rw [hm]
  generalize exponentField x = e at he
  generalize fractionField x = f at hf
  by_cases hlast : e + 1 = 2048
  · obtain rfl : e = 2047 := by omega
    rw [if_pos rfl]
    by_cases hzero : f = 0
    · rw [if_pos hzero, hzero]
      exact .infinite
    · rw [if_neg hzero]
      exact .notANumber hzero
  · rw [if_neg hlast]
    by_cases hfirst : e = 0
    · rw [if_pos hfirst, hfirst]
      by_cases hzero : f = 0
      · rw [if_pos hzero, hzero]
        exact .zero
      · rw [if_neg hzero]
        exact hasFields_subnormal hf hzero
    · rw [if_neg hfirst]
      exact hasFields_normal hf hfirst

theorem HasFields.unique {m : Magnitude} {e f e' f' : Nat} (h : HasFields m e f) (h' : HasFields m e' f')
    (hm : m ≠ .notANumber) : e = e' ∧ f = f' := by
  cases h with
  | notANumber => exact absurd rfl hm
  | _ =>
    cases h'
    exact ⟨rfl, rfl⟩

private theorem eq_of_toBits_eq {x y : Float} (h : x.toBits = y.toBits) : x = y := by
  obtain ⟨⟨b, hb⟩⟩ := x
  obtain ⟨⟨c, hc⟩⟩ := y
  obtain rfl : b = c := h
  rfl

private theorem toNat_toBits (x : Float) : x.toBits.toNat =
    (if isNegative x then signWeight else 0) + exponentField x * exponentWeight + fractionField x := by
  have h : x.toBits.toNat < 2 ^ 64 := x.toBits.toNat_lt
  have hn : isNegative x = true ↔ signWeight ≤ x.toBits.toNat := decide_eq_true_iff
  simp only [exponentField, fractionField, exponentWeight, exponentCount]
  by_cases hs : signWeight ≤ x.toBits.toNat
  · rw [if_pos (hn.2 hs)]
    simp only [signWeight] at hs ⊢
    omega
  · rw [if_neg (mt hn.1 hs)]
    simp only [signWeight] at hs
    omega

/-- There is one double that is not a number. -/
private theorem toBits_of_notANumber {x : Float} (h : magnitude x = .notANumber) :
    x.toBits.toBitVec = packedNaN Format.binary64 := by
  have hfields := hasFields x
  rw [h] at hfields
  have hexponent : (@unpackExponent Format.binary64 x.toBits.toBitVec).toNat = exponentField x := by
    simp [unpackExponent, BitVec.extractLsb, BitVec.extractLsb', exponentField, exponentWeight, exponentCount,
      Nat.shiftRight_eq_div_pow]
  have hfraction : (@unpackMantissa Format.binary64 x.toBits.toBitVec).toNat = fractionField x := by
    simp [unpackMantissa, BitVec.extractLsb, BitVec.extractLsb', fractionField, exponentWeight]
  generalize exponentField x = e at hfields hexponent
  generalize fractionField x = f at hfields hfraction
  cases hfields with
  | notANumber hne =>
    refine x.toModel.valid.eq_packedNaN (BitVec.eq_of_toNat_eq hexponent) fun h => hne ?_
    rw [← hfraction]
    exact congrArg BitVec.toNat h

theorem eq_of_notANumber {x y : Float} (hx : magnitude x = .notANumber) (hy : magnitude y = .notANumber) : x = y :=
  eq_of_toBits_eq (UInt64.toBitVec_inj.1 ((toBits_of_notANumber hx).trans (toBits_of_notANumber hy).symm))

/-- Sign and magnitude determine a double. -/
theorem eq_of_magnitude_eq {x y : Float} (hm : magnitude x = magnitude y) (hs : isNegative x = isNegative y) :
    x = y := by
  by_cases h : magnitude x = .notANumber
  · exact eq_of_notANumber h (hm ▸ h)
  · have hx := hasFields x
    have hy := hasFields y
    rw [← hm] at hy
    obtain ⟨he, hf⟩ := hx.unique hy h
    refine eq_of_toBits_eq ?_
    rw [← UInt64.toNat_inj, toNat_toBits x, toNat_toBits y, hs, he, hf]

end LoxSyntax.Decimal
