/-!
# The fewest digits that read back

A positive binary floating-point value is `m · 2^q`.  The reals that round to it form an interval around it, whose
ends belong to it exactly when `m` is even.  Of all decimals `d · 10^p` in the interval, `Binary.shortest` selects
one with the fewest digits, and among these the nearest to the value, an even `d` winning a tie.

On each decimal grid only the two neighbours of the value have to be tested: if any point of the grid is in the
interval, so is one of the neighbours.

* `floorDiv_mul_le`, `lt_succ_floorDiv_mul`: the value lies between its two neighbours on a grid.
* `readsBack_of_search`: what is selected is in the interval.
-/

namespace LoxSyntax.Decimal

/-- The positive value `mantissa · 2^exponent`; at a power of two the next smaller value is half a step away. -/
structure Binary where
  mantissa : Nat
  exponent : Int
  narrowBelow : Bool
  deriving DecidableEq

/-- The decimal `digits · 10^exponent`. -/
structure Scientific where
  digits : Nat
  exponent : Int
  deriving DecidableEq

/-- The numerator of `b^e`. -/
def powNum (b : Nat) (e : Int) : Nat := Nat.pow b e.toNat

/-- The denominator of `b^e`. -/
def powDen (b : Nat) (e : Int) : Nat := Nat.pow b (-e).toNat

/-- Whether `a · 2^q < d · 10^p`. -/
def binaryLt (a : Nat) (q : Int) (d : Nat) (p : Int) : Bool :=
  decide (a * powNum 2 q * powDen 10 p < d * powNum 10 p * powDen 2 q)

/-- Whether `d · 10^p < a · 2^q`. -/
def decimalLt (d : Nat) (p : Int) (a : Nat) (q : Int) : Bool :=
  decide (d * powNum 10 p * powDen 2 q < a * powNum 2 q * powDen 10 p)

/-- The greatest `d` with `d · 10^p ≤ a · 2^q`. -/
def floorDiv (a : Nat) (q p : Int) : Nat :=
  a * powNum 2 q * powDen 10 p / (powNum 10 p * powDen 2 q)

/-- Whether a decimal rounds to the value: the quarter steps `4m - 2`, or `4m - 1`, and `4m + 2` bound the
interval. -/
def Binary.readsBack (v : Binary) (d : Nat) (p : Int) : Bool :=
  let low := 4 * v.mantissa - (if v.narrowBelow then 1 else 2)
  let high := 4 * v.mantissa + 2
  let q := v.exponent - 2
  if v.mantissa % 2 = 0 then !decimalLt d p low q && !binaryLt high q d p
  else binaryLt low q d p && decimalLt d p high q

/-- Whether `d + 1` is chosen over `d` when both read back: it is nearer, or as near and even. -/
def Binary.prefersAbove (v : Binary) (d : Nat) (p : Int) : Bool :=
  decimalLt (2 * d + 1) p (2 * v.mantissa) v.exponent
    || (!binaryLt (2 * v.mantissa) v.exponent (2 * d + 1) p && d % 2 == 1)

/-- The decimal on the grid of multiples of `10^p` that reads back, if there is one. -/
def Binary.onGrid? (v : Binary) (p : Int) : Option Scientific :=
  let d := floorDiv v.mantissa v.exponent p
  match v.readsBack d p, v.readsBack (d + 1) p with
  | true, true => some ⟨if v.prefersAbove d p then d + 1 else d, p⟩
  | true, false => some ⟨d, p⟩
  | false, true => some ⟨d + 1, p⟩
  | false, false => none

/-- How many decimal digits a number has, at most `fuel`. -/
def digitCount : (fuel : Nat) → Nat → Nat
  | 0, _ => 0
  | fuel + 1, n => if n < 10 then 1 else digitCount fuel (n / 10) + 1

/-- The exponent of the leading digit of the value; every finite double is at least `10^-324` and below `10^309`. -/
def Binary.leading (v : Binary) : Int :=
  (digitCount 700 (floorDiv v.mantissa v.exponent (-324)) : Int) - 1 - 324

/-- The first grid with a hit, from `digits` digits down the list of grids. -/
def Binary.search (v : Binary) : (grids : Nat) → (p : Int) → Option Scientific
  | 0, _ => none
  | grids + 1, p => (v.onGrid? p).or (v.search grids (p - 1))

/-- The selected decimal; seventeen digits always suffice for a double. -/
def Binary.shortest (v : Binary) : Scientific :=
  (v.search 17 v.leading).getD ⟨v.mantissa * powNum 2 v.exponent, 0⟩

/-- The class of a double and its magnitude. -/
inductive Magnitude where
  | zero
  | finite (v : Binary)
  | infinite
  | notANumber
  deriving DecidableEq

/-- What the lowest bit of the exponent field of a double weighs. -/
def exponentWeight : Nat := 0x10000000000000

/-- What the sign bit of a double weighs. -/
def signWeight : Nat := 0x8000000000000000

/-- How many values the exponent field of a double has. -/
def exponentCount : Nat := 0x800

/-- Whether the sign bit is set. -/
def isNegative (x : Float) : Bool := decide (signWeight ≤ x.toBits.toNat)

/-- The magnitude that the bits of a double stand for. -/
def magnitude (x : Float) : Magnitude :=
  let bits : Nat := x.toBits.toNat
  let e : Nat := bits / exponentWeight % exponentCount
  let f : Nat := bits % exponentWeight
  if e + 1 = exponentCount then if f = 0 then .infinite else .notANumber
  else if e = 0 then if f = 0 then .zero else .finite ⟨f, -1074, false⟩
  else .finite ⟨f + exponentWeight, (e : Int) - 1075, f == 0 && decide (1 < e)⟩

theorem powNum_pos {b : Nat} (hb : 0 < b) (e : Int) : 0 < powNum b e := Nat.pow_pos hb

theorem powDen_pos {b : Nat} (hb : 0 < b) (e : Int) : 0 < powDen b e := Nat.pow_pos hb

theorem floorDiv_mul_le (a : Nat) (q p : Int) :
    floorDiv a q p * (powNum 10 p * powDen 2 q) ≤ a * powNum 2 q * powDen 10 p :=
  Nat.div_mul_le_self _ _

theorem lt_succ_floorDiv_mul (a : Nat) (q p : Int) :
    a * powNum 2 q * powDen 10 p < (floorDiv a q p + 1) * (powNum 10 p * powDen 2 q) := by
  have h : 0 < powNum 10 p * powDen 2 q := Nat.mul_pos (powNum_pos (by decide) p) (powDen_pos (by decide) q)
  exact Nat.lt_mul_of_div_lt (Nat.lt_succ_self _) h

theorem readsBack_of_onGrid {v : Binary} {p : Int} {d : Scientific} (h : v.onGrid? p = some d) :
    v.readsBack d.digits d.exponent = true := by
  unfold Binary.onGrid? at h
  dsimp only at h
  split at h
  · rename_i h₁ h₂
    cases h
    dsimp only
    split
    · exact h₂
    · exact h₁
  · rename_i h₁ _
    cases h
    exact h₁
  · rename_i _ h₂
    cases h
    exact h₂
  · cases h

theorem readsBack_of_search {v : Binary} {grids : Nat} {p : Int} {d : Scientific}
    (h : v.search grids p = some d) : v.readsBack d.digits d.exponent = true := by
  induction grids generalizing p with
  | zero => cases h
  | succ grids ih =>
    rw [Binary.search] at h
    rcases Option.or_eq_some_iff.1 h with h | ⟨_, h⟩
    · exact readsBack_of_onGrid h
    · exact ih h

end LoxSyntax.Decimal
