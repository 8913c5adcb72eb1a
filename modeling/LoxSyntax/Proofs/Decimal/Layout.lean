import LoxSyntax.Decimal.Layout
import LoxSyntax.Proofs.Decimal.Double

/-!
# Texts of numbers are different

The text of a double is read back to its sign and to the value of its shortest decimal.  A point says how many of the
digits stand behind it, and the exponent is marked.  So the text determines the double.

* `textValue_render`: the value of a decimal is read off its text.
* `inNumber_of_mem_float`: the characters of a text.
* `showFloat_injective`: doubles have different texts.
-/

namespace LoxSyntax.Decimal

open Nat (ofDigitChars)

/-! ### Reading a text -/

/-- The value of digits with a point among them. -/
def pointValue (t : List Char) : ℚ :=
  let whole := t.takeWhile (· != '.')
  let fraction := (t.dropWhile (· != '.')).drop 1
  ofDigitChars 10 (whole ++ fraction) 0 * 10 ^ (-(fraction.length : Int))

/-- The value of an exponent with its mark and sign. -/
def exponentValue : List Char → Int
  | 'e' :: '-' :: ds => -(ofDigitChars 10 ds 0 : Int)
  | 'e' :: '+' :: ds => ofDigitChars 10 ds 0
  | _ => 0

/-- The value of digits with an exponent, if there is one. -/
def textValue (t : List Char) : ℚ :=
  pointValue (t.takeWhile (· != 'e')) * 10 ^ exponentValue (t.dropWhile (· != 'e'))

private theorem takeWhile_bne_append {a : Char} {s : List Char} (h : a ∉ s) (t : List Char) :
    (s ++ a :: t).takeWhile (· != a) = s ∧ (s ++ a :: t).dropWhile (· != a) = a :: t := by
  have hs : ∀ c ∈ s, (c != a) = true := fun c hc => bne_iff_ne.2 fun e => h (e ▸ hc)
  rw [List.takeWhile_append_of_pos hs, List.dropWhile_append_of_pos hs]
  simp

private theorem takeWhile_bne {a : Char} {s : List Char} (h : a ∉ s) :
    s.takeWhile (· != a) = s ∧ s.dropWhile (· != a) = [] := by
  have hs : ∀ c ∈ s, (c != a) = true := fun c hc => bne_iff_ne.2 fun e => h (e ▸ hc)
  have htake : (s ++ []).takeWhile (· != a) = s ++ [] := List.takeWhile_append_of_pos hs
  have hdrop : (s ++ []).dropWhile (· != a) = [] := List.dropWhile_append_of_pos hs
  rw [List.append_nil] at htake hdrop
  exact ⟨htake, hdrop⟩

theorem pointValue_of_digits {ds : List Char} (h : '.' ∉ ds) : pointValue ds = ofDigitChars 10 ds 0 := by
  obtain ⟨htake, hdrop⟩ := takeWhile_bne h
  rw [pointValue, htake, hdrop]
  simp

theorem pointValue_of_point {ds fs : List Char} (h : '.' ∉ ds) :
    pointValue (ds ++ '.' :: fs) = ofDigitChars 10 (ds ++ fs) 0 * 10 ^ (-(fs.length : Int)) := by
  obtain ⟨htake, hdrop⟩ := takeWhile_bne_append h fs
  rw [pointValue, htake, hdrop]
  rfl

theorem textValue_of_noMark {t : List Char} (h : 'e' ∉ t) : textValue t = pointValue t := by
  obtain ⟨htake, hdrop⟩ := takeWhile_bne h
  rw [textValue, htake, hdrop]
  simp [exponentValue]

theorem ofDigitChars_padded (width n : Nat) : ofDigitChars 10 (padded width n) 0 = n := by
  rw [padded, Nat.ofDigitChars_append, Nat.ofDigitChars_replicate_zero, Nat.mul_zero]
  exact Nat.ofDigitChars_ten_toDigits

theorem exponentValue_exponentPart (e : Int) : exponentValue (Layout.plain.exponentPart e) = e := by
  unfold Layout.exponentPart
  split
  · show -(ofDigitChars 10 (padded 2 e.natAbs) 0 : Int) = e
    rw [ofDigitChars_padded]
    omega
  · show (ofDigitChars 10 (padded 2 e.natAbs) 0 : Int) = e
    rw [ofDigitChars_padded]
    omega

theorem textValue_of_mark {t : List Char} (h : 'e' ∉ t) (e : Int) :
    textValue (t ++ Layout.plain.exponentPart e) = pointValue t * 10 ^ e := by
  obtain ⟨htake, hdrop⟩ := takeWhile_bne_append h
    ((if e < 0 then ['-'] else Layout.plain.exponentPlus) ++ padded 2 e.natAbs)
  have hpart : Layout.plain.exponentPart e
      = 'e' :: ((if e < 0 then ['-'] else Layout.plain.exponentPlus) ++ padded 2 e.natAbs) := rfl
  rw [textValue, hpart, htake, hdrop, ← hpart, exponentValue_exponentPart]

/-! ### The text of a decimal -/

/-- What is trimmed is zeros. -/
theorem exists_trimZeros_append (ds : List Char) : ∃ k, ds = trimZeros ds ++ List.replicate k '0' := by
  refine ⟨(ds.reverse.takeWhile (· == '0')).length, ?_⟩
  have hzeros : ds.reverse.takeWhile (· == '0') = List.replicate (ds.reverse.takeWhile (· == '0')).length '0' :=
    List.eq_replicate_iff.2 ⟨rfl, fun c hc => beq_iff_eq.1 (List.all_eq_true.1 List.all_takeWhile c hc)⟩
  have hsplit := List.takeWhile_append_dropWhile (p := (· == '0')) (l := ds.reverse)
  rw [hzeros] at hsplit
  have h := congrArg List.reverse hsplit
  rw [List.reverse_append, List.reverse_reverse, List.reverse_replicate] at h
  exact h.symm

theorem isDigit_of_mem_trimZeros {n : Nat} {c : Char} (h : c ∈ trimZeros (digitChars n)) : c.isDigit = true := by
  obtain ⟨k, hk⟩ := exists_trimZeros_append (digitChars n)
  refine isDigit_of_mem_digitChars (n := n) ?_
  rw [hk]
  exact List.mem_append_left _ h

/-- The digits of a decimal without the last zeros, and the exponent of the first of them. -/
structure Leads (d : Scientific) (ds : List Char) (e : Int) : Prop where
  digits : ∀ c ∈ ds, c.isDigit = true
  value : d.value = ofDigitChars 10 ds 0 * 10 ^ (e + 1 - ds.length)

theorem leads_trimZeros (d : Scientific) :
    Leads d (trimZeros (digitChars d.digits)) (d.exponent + (digitChars d.digits).length - 1) := by
  refine ⟨fun c hc => isDigit_of_mem_trimZeros hc, ?_⟩
  have hvalue : ofDigitChars 10 (digitChars d.digits) 0 = d.digits := Nat.ofDigitChars_ten_toDigits
  obtain ⟨k, hk⟩ := exists_trimZeros_append (digitChars d.digits)
  have hlength := congrArg List.length hk
  rw [List.length_append, List.length_replicate] at hlength
  generalize trimZeros (digitChars d.digits) = ds at hk hlength
  rw [hk, Nat.ofDigitChars_append, Nat.ofDigitChars_replicate_zero] at hvalue
  have hexponent : d.exponent + (digitChars d.digits).length - 1 + 1 - ds.length = (k : Int) + d.exponent := by omega
  rw [hexponent, zpow_add₀ (by norm_num), zpow_natCast, Scientific.value, ← hvalue]
  push_cast
  ring

/-- Digits have neither point nor mark among them. -/
private theorem Leads.notMem {d : Scientific} {ds : List Char} {e : Int} (h : Leads d ds e) {c : Char}
    (hc : c.isDigit = false) : c ∉ ds := by
  intro hm
  rw [h.digits c hm] at hc
  cases hc

private theorem notMem_zeros {c : Char} (hc : c ≠ '0') (n : Nat) : c ∉ List.replicate n '0' :=
  fun h => hc (List.eq_of_mem_replicate h)

private theorem textValue_below {ds : List Char} (hmark : 'e' ∉ ds) (n : Nat) :
    textValue (['0', '.'] ++ List.replicate n '0' ++ ds) = ofDigitChars 10 ds 0 * 10 ^ (-((n : Int) + ds.length)) := by
  have hzeros : 'e' ∉ List.replicate n '0' := notMem_zeros (by decide) n
  have htext : ['0', '.'] ++ List.replicate n '0' ++ ds = ['0'] ++ '.' :: (List.replicate n '0' ++ ds) := rfl
  have hvalue : ofDigitChars 10 (['0'] ++ (List.replicate n '0' ++ ds)) 0 = ofDigitChars 10 ds 0 := by
    rw [Nat.ofDigitChars_append, Nat.ofDigitChars_append, Nat.ofDigitChars_replicate_zero]
    rfl
  rw [textValue_of_noMark (by simp [hmark, hzeros]), htext, pointValue_of_point (by decide), hvalue,
    List.length_append, List.length_replicate, Nat.cast_add]

private theorem textValue_whole {ds : List Char} (hpoint : '.' ∉ ds) (hmark : 'e' ∉ ds) (n : Nat) :
    textValue (ds ++ List.replicate n '0' ++ ['.', '0']) = ofDigitChars 10 ds 0 * 10 ^ n := by
  have hzeros {c : Char} (hc : c ≠ '0') : c ∉ List.replicate n '0' := notMem_zeros hc n
  have hvalue : ofDigitChars 10 (ds ++ List.replicate n '0' ++ ['0']) 0 = 10 * (10 ^ n * ofDigitChars 10 ds 0) := by
    rw [Nat.ofDigitChars_append, Nat.ofDigitChars_append, Nat.ofDigitChars_replicate_zero]
    rfl
  rw [textValue_of_noMark (by simp [hmark, hzeros]), pointValue_of_point (by simp [hpoint, hzeros]), hvalue,
    List.length_singleton, zpow_neg, zpow_natCast]
  push_cast
  ring

private theorem textValue_between {ds : List Char} (hpoint : '.' ∉ ds) (hmark : 'e' ∉ ds) (n : Nat) :
    textValue (ds.take n ++ '.' :: ds.drop n) = ofDigitChars 10 ds 0 * 10 ^ (-((ds.length - n : Nat) : Int)) := by
  have hpoint' : '.' ∉ ds.take n := fun hc => hpoint (List.mem_of_mem_take hc)
  have hmark' : 'e' ∉ ds.take n := fun hc => hmark (List.mem_of_mem_take hc)
  have hmark'' : 'e' ∉ ds.drop n := fun hc => hmark (List.mem_of_mem_drop hc)
  rw [textValue_of_noMark (by simp [hmark', hmark'']), pointValue_of_point hpoint', List.take_append_drop,
    List.length_drop]

theorem textValue_positional {d : Scientific} {ds : List Char} {e : Int} (h : Leads d ds e) :
    textValue (Layout.plain.positional ds e) = d.value := by
  have hpoint : '.' ∉ ds := h.notMem (by decide)
  have hmark : 'e' ∉ ds := h.notMem (by decide)
  rw [h.value, Layout.positional]
  by_cases he : e < 0
  · have hexponent : e + 1 - ds.length = -(((-e - 1).toNat : Int) + ds.length) := by omega
    rw [if_pos he, textValue_below hmark, hexponent]
  · rw [if_neg he]
    dsimp only
    by_cases hle : ds.length ≤ e.toNat + 1
    · have hexponent : e + 1 - ds.length = ((e.toNat + 1 - ds.length : Nat) : Int) := by omega
      rw [if_pos hle, hexponent, zpow_natCast]
      exact textValue_whole hpoint hmark _
    · have hexponent : e + 1 - ds.length = -((ds.length - (e.toNat + 1) : Nat) : Int) := by omega
      rw [if_neg hle, textValue_between hpoint hmark, hexponent]

theorem mem_or_eq_of_mem_pointed {ds : List Char} {c : Char} (h : c ∈ pointed ds) : c ∈ ds ∨ c = '.' := by
  match ds with
  | [] => exact Or.inl h
  | [d] => exact Or.inl h
  | d :: e :: rest =>
    simp only [pointed, List.mem_cons] at h ⊢
    tauto

theorem pointValue_pointed {ds : List Char} (h : '.' ∉ ds) :
    pointValue (pointed ds) = ofDigitChars 10 ds 0 * 10 ^ (1 - (ds.length : Int)) := by
  match ds with
  | [] => simp [pointed, pointValue]
  | [d] =>
    show pointValue [d] = _
    rw [pointValue_of_digits h]
    simp
  | d :: e :: rest =>
    have hd : '.' ∉ [d] := fun hc => h (List.mem_of_mem_take (i := 1) hc)
    show pointValue ([d] ++ '.' :: (e :: rest)) = _
    rw [pointValue_of_point hd]
    simp

/-- The value of a decimal is read off its text. -/
theorem textValue_render (d : Scientific) : textValue (Layout.plain.render d) = d.value := by
  have h := leads_trimZeros d
  unfold Layout.render
  dsimp only
  generalize d.exponent + (digitChars d.digits).length - 1 = e at h ⊢
  generalize trimZeros (digitChars d.digits) = ds at h ⊢
  split
  · exact textValue_positional h
  · have hmark : 'e' ∉ pointed ds := fun hc =>
      (mem_or_eq_of_mem_pointed hc).elim (h.notMem (by decide)) (by decide)
    rw [textValue_of_mark hmark, pointValue_pointed (h.notMem (by decide)), h.value, mul_assoc,
      ← zpow_add₀ (by norm_num)]
    congr 2
    omega

/-! ### The characters of a text -/

/-- Whether a character may stand in the text of a number. -/
def inNumber (c : Char) : Bool := c.isDigit || ['.', 'e', '+', '-', 'i', 'n', 'f', 'a'].contains c

private theorem inNumber_of_isDigit {c : Char} (h : c.isDigit = true) : inNumber c = true := by
  rw [inNumber, h, Bool.true_or]

private theorem forall_mem_zeros (n : Nat) : ∀ c ∈ List.replicate n '0', c.isDigit = true := by
  intro c hc
  rw [List.eq_of_mem_replicate hc]
  rfl

private theorem inNumber_of_mem_positional {ds : List Char} (hd : ∀ c ∈ ds, c.isDigit = true) (e : Int) :
    ∀ c ∈ Layout.plain.positional ds e, inNumber c = true := by
  have hds : ∀ c ∈ ds, inNumber c = true := fun c hc => inNumber_of_isDigit (hd c hc)
  have hzeros (n : Nat) : ∀ c ∈ List.replicate n '0', inNumber c = true := fun c hc =>
    inNumber_of_isDigit (forall_mem_zeros n c hc)
  unfold Layout.positional
  dsimp only
  split
  · simp only [List.forall_mem_append]
    exact ⟨⟨List.all_eq_true.1 (by decide), hzeros _⟩, hds⟩
  · split
    · simp only [List.forall_mem_append]
      exact ⟨⟨hds, hzeros _⟩, List.all_eq_true.1 (by decide)⟩
    · simp only [List.forall_mem_append, List.forall_mem_cons]
      exact ⟨fun c hc => hds c (List.mem_of_mem_take hc), by decide, fun c hc => hds c (List.mem_of_mem_drop hc)⟩

private theorem inNumber_of_mem_exponentPart (e : Int) : ∀ c ∈ Layout.plain.exponentPart e, inNumber c = true := by
  have hsign : ∀ c ∈ (if e < 0 then ['-'] else Layout.plain.exponentPlus), inNumber c = true := by
    split <;> exact List.all_eq_true.1 (by decide)
  have hdigits : ∀ c ∈ padded Layout.plain.exponentWidth e.natAbs, inNumber c = true := by
    intro c hc
    rcases List.mem_append.1 hc with hc | hc
    · exact inNumber_of_isDigit (forall_mem_zeros _ c hc)
    · exact inNumber_of_isDigit (isDigit_of_mem_digitChars hc)
  show ∀ c ∈ 'e' :: (_ ++ _), _
  simp only [List.forall_mem_append, List.forall_mem_cons]
  exact ⟨by decide, hsign, hdigits⟩

private theorem inNumber_of_mem_render (d : Scientific) : ∀ c ∈ Layout.plain.render d, inNumber c = true := by
  have hd : ∀ c ∈ trimZeros (digitChars d.digits), c.isDigit = true := fun c hc => isDigit_of_mem_trimZeros hc
  unfold Layout.render
  dsimp only
  split
  · exact inNumber_of_mem_positional hd _
  · rw [List.forall_mem_append]
    refine ⟨fun c hc => ?_, inNumber_of_mem_exponentPart _⟩
    rcases mem_or_eq_of_mem_pointed hc with hc | rfl
    · exact inNumber_of_isDigit (hd c hc)
    · decide

/-- The text of a double has no other characters. -/
theorem inNumber_of_mem_float (x : Float) : ∀ c ∈ Layout.plain.float x, inNumber c = true := by
  have hsign : ∀ c ∈ (if isNegative x then ['-'] else []), inNumber c = true := by
    split <;> exact List.all_eq_true.1 (by decide)
  unfold Layout.float
  split
  · exact List.all_eq_true.1 (by decide)
  · rw [List.forall_mem_append]
    refine ⟨hsign, ?_⟩
    cases magnitude x with
    | finite v => exact inNumber_of_mem_render v.shortest
    | zero => exact List.all_eq_true.1 (by decide)
    | infinite => exact List.all_eq_true.1 (by decide)
    | notANumber => exact List.all_eq_true.1 (by decide)

/-! ### Different doubles -/

private theorem exists_trimZeros_cons {n : Nat} (hn : 0 < n) : ∃ c ds, trimZeros (digitChars n) = c :: ds := by
  obtain ⟨k, hk⟩ := exists_trimZeros_append (digitChars n)
  refine List.exists_cons_of_ne_nil fun h => ?_
  have hvalue : ofDigitChars 10 (digitChars n) 0 = n := Nat.ofDigitChars_ten_toDigits
  rw [hk, h, List.nil_append, Nat.ofDigitChars_replicate_zero] at hvalue
  omega

/-- The text of a positive decimal begins with a digit. -/
private theorem exists_render_cons {d : Scientific} (hd : 0 < d.digits) :
    ∃ c t, Layout.plain.render d = c :: t ∧ c.isDigit = true := by
  obtain ⟨c, ds, hds⟩ := exists_trimZeros_cons hd
  have hc : c.isDigit = true := isDigit_of_mem_trimZeros (hds ▸ List.mem_cons_self)
  unfold Layout.render
  dsimp only
  rw [hds]
  split
  · unfold Layout.positional
    dsimp only
    split
    · exact ⟨'0', _, rfl, rfl⟩
    · split
      · exact ⟨c, _, rfl, hc⟩
      · exact ⟨c, _, rfl, hc⟩
  · cases ds with
    | nil => exact ⟨c, _, rfl, hc⟩
    | cons d ds => exact ⟨c, _, rfl, hc⟩

private theorem textValue_zero : textValue (Layout.plain.magnitude .zero) = 0 := by
  have hpoint : pointValue (['0'] ++ '.' :: ['0']) = ofDigitChars 10 ['0', '0'] 0 * 10 ^ (-1 : Int) :=
    pointValue_of_point (by decide)
  have hzeros : ofDigitChars 10 ['0', '0'] 0 = 0 := rfl
  rw [hzeros, Nat.cast_zero, zero_mul] at hpoint
  exact (textValue_of_noMark (by decide)).trans hpoint

private theorem finite_ne_zero {v : Binary} (hv : v.IsDouble) :
    Layout.plain.magnitude (.finite v) ≠ Layout.plain.magnitude .zero := by
  intro h
  have hpos : (0 : ℚ) < v.shortest.digits := by exact_mod_cast Binary.shortest_digits_pos hv
  have hvalue : v.shortest.value = 0 := by
    rw [← textValue_zero, ← h]
    exact (textValue_render _).symm
  rw [Scientific.value] at hvalue
  have : (0 : ℚ) < v.shortest.digits * 10 ^ v.shortest.exponent := by positivity
  linarith

private theorem finite_ne_name {v : Binary} (hv : v.IsDouble) {c : Char} (hc : c.isDigit = false) (t : List Char) :
    Layout.plain.magnitude (.finite v) ≠ c :: t := by
  intro h
  obtain ⟨d, u, hd, hdigit⟩ := exists_render_cons (Binary.shortest_digits_pos hv)
  obtain rfl : d = c := (List.cons.inj (hd.symm.trans h)).1
  rw [hc] at hdigit
  cases hdigit

/-- Magnitudes of doubles have different texts. -/
theorem HasFields.eq_of_text_eq {m m' : Magnitude} {e f e' f' : Nat} (hm : HasFields m e f) (hm' : HasFields m' e' f')
    (h : Layout.plain.magnitude m = Layout.plain.magnitude m') : m = m' := by
  cases hm with
  | zero =>
    cases hm' with
    | zero => rfl
    | finite hv => exact absurd h.symm (finite_ne_zero hv)
    | infinite => exact absurd h (by decide)
    | notANumber => exact absurd h (by decide)
  | finite hv =>
    cases hm' with
    | zero => exact absurd h (finite_ne_zero hv)
    | finite hw =>
      have hvalue := congrArg textValue h
      rw [Layout.magnitude, Layout.magnitude, textValue_render, textValue_render] at hvalue
      rw [Binary.eq_of_shortest_value_eq hv hw hvalue]
    | infinite => exact absurd h (finite_ne_name hv (by decide) _)
    | notANumber => exact absurd h (finite_ne_name hv (by decide) _)
  | infinite =>
    cases hm' with
    | zero => exact absurd h (by decide)
    | finite hv => exact absurd h.symm (finite_ne_name hv (by decide) _)
    | infinite => rfl
    | notANumber => exact absurd h (by decide)
  | notANumber =>
    cases hm' with
    | zero => exact absurd h (by decide)
    | finite hv => exact absurd h.symm (finite_ne_name hv (by decide) _)
    | infinite => exact absurd h (by decide)
    | notANumber => rfl

/-- The text of a magnitude begins with no sign. -/
theorem HasFields.exists_cons {m : Magnitude} {e f : Nat} (hm : HasFields m e f) :
    ∃ c t, Layout.plain.magnitude m = c :: t ∧ c ≠ '-' := by
  cases hm with
  | zero => exact ⟨'0', _, rfl, by decide⟩
  | finite hv =>
    obtain ⟨c, t, h, hc⟩ := exists_render_cons (Binary.shortest_digits_pos hv)
    refine ⟨c, t, h, ?_⟩
    rintro rfl
    cases hc
  | infinite => exact ⟨'i', _, rfl, by decide⟩
  | notANumber => exact ⟨'n', _, rfl, by decide⟩

/-- The sign that is written. -/
def sign (x : Float) : List Char := if magnitude x ≠ .notANumber ∧ isNegative x then ['-'] else []

theorem float_eq (x : Float) : Layout.plain.float x = sign x ++ Layout.plain.magnitude (magnitude x) := by
  unfold Layout.float sign
  split
  · rename_i h
    rw [h]
    rfl
  · rename_i h
    have h : magnitude x ≠ .notANumber := h
    simp [h]

private theorem sign_append_inj {x y : Float} {c c' : Char} {t t' : List Char} (hc : c ≠ '-') (hc' : c' ≠ '-')
    (h : sign x ++ c :: t = sign y ++ c' :: t') : sign x = sign y ∧ c :: t = c' :: t' := by
  have hsign (z : Float) : sign z = ['-'] ∨ sign z = [] := ite_eq_or_eq _ _ _
  rcases hsign x with hx | hx <;> rcases hsign y with hy | hy <;> rw [hx, hy] at h ⊢
  · exact ⟨rfl, (List.cons.inj h).2⟩
  · exact absurd (List.cons.inj h).1.symm hc'
  · exact absurd (List.cons.inj h).1 hc
  · exact ⟨rfl, h⟩

private theorem isNegative_eq_of_sign_eq {x y : Float} (hx : magnitude x ≠ .notANumber)
    (hy : magnitude y ≠ .notANumber) (h : sign x = sign y) : isNegative x = isNegative y := by
  have hsign {z : Float} (hz : magnitude z ≠ .notANumber) : sign z = ['-'] ↔ isNegative z = true := by
    simp [sign, hz]
  rw [Bool.eq_iff_iff, ← hsign hx, ← hsign hy, h]

/-- Doubles have different texts. -/
theorem showFloat_injective : Function.Injective showFloat := by
  intro x y h
  have h : Layout.plain.float x = Layout.plain.float y := String.ofList_inj.1 h
  obtain ⟨c, t, hx, hc⟩ := (hasFields x).exists_cons
  obtain ⟨c', t', hy, hc'⟩ := (hasFields y).exists_cons
  rw [float_eq, float_eq, hx, hy] at h
  obtain ⟨hsign, htext⟩ := sign_append_inj hc hc' h
  rw [← hx, ← hy] at htext
  have hm : magnitude x = magnitude y := (hasFields x).eq_of_text_eq (hasFields y) htext
  by_cases hn : magnitude x = .notANumber
  · exact eq_of_notANumber hn (hm ▸ hn)
  · exact eq_of_magnitude_eq hm (isNegative_eq_of_sign_eq hn (hm ▸ hn) hsign)

end LoxSyntax.Decimal
