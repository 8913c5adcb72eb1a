import LoxSyntax.Decimal.Numeral
import LoxSyntax.Proofs.Token.Lexeme

/-!
# Numbers of plain digits

The numbers of a program text are ASCII digits, with at most one point among them.  Such a text is read, and its value
is the one that its digits have.

* `read?_whole`, `read?_fraction`: the values of digits, and of digits around a point.
-/

namespace LoxSyntax.Decimal

open Segment (isDigit ne_of_class toNat_of_isDigit)

/-! ### Plain digits -/

theorem digitValue?_of_isDigit {c : Char} (h : isDigit c = true) : Text.digitValue? c = some (c.toNat - 0x30) := by
  have hc := toNat_of_isDigit h
  rw [Text.digitValue?_ascii (by omega), if_pos hc]

private theorem isBlank_of_toNat {c : Char} (h : 0x2e ≤ c.toNat ∧ c.toNat ≤ 0x39) : Text.isBlank c = false := by
  have hs : c ≠ ' ' := by
    rintro rfl
    exact absurd h (by decide)
  have hw : ∀ n ∈ [0x85, 0xa0, 0x1680, 0x2028, 0x2029, 0x202f, 0x205f, 0x3000], c.toNat ≠ n := by
    intro n hn e
    simp only [List.mem_cons, List.not_mem_nil, or_false] at hn
    omega
  simp only [Text.isBlank, Text.isWideBlank, Bool.or_eq_false_iff, Bool.and_eq_false_iff, decide_eq_false_iff_not,
    beq_eq_false_iff_ne, List.contains_eq_mem]
  refine ⟨⟨hs, by omega⟩, fun hn => hw _ hn rfl, by omega⟩

private theorem inDigitRun_of_isDigit {c : Char} (h : isDigit c = true) : inDigitRun c = true := by
  simp [inDigitRun, digitValue?_of_isDigit h]

/-- Digits without underscores are separated. -/
private theorem separated_of_digits {ds : List Char} (hd : ∀ c ∈ ds, isDigit c = true) : separated true ds = true := by
  induction ds with
  | nil => rfl
  | cons c ds ih =>
    have hc : c ≠ '_' := ne_of_class (hd c List.mem_cons_self) (by decide)
    rw [separated, if_neg hc]
    exact ih fun d h => hd d (List.mem_cons_of_mem _ h)

/-- Digits are read up to a character that is in no run of digits. -/
private theorem readDigits?_append {ds : List Char} (hd : ∀ c ∈ ds, isDigit c = true) (tail : List Char)
    (ht : tail.head?.all (fun c => !inDigitRun c) = true) :
    readDigits? (ds ++ tail) = some (ds.filterMap Text.digitValue?, tail) := by
  have hrun : ∀ c ∈ ds, inDigitRun c = true := fun c hc => inDigitRun_of_isDigit (hd c hc)
  have htake : tail.takeWhile inDigitRun = [] := by
    cases tail with
    | nil => rfl
    | cons c tail => simp [show inDigitRun c = false by simpa using ht]
  have hdrop : tail.dropWhile inDigitRun = tail := by
    cases tail with
    | nil => rfl
    | cons c tail => simp [show inDigitRun c = false by simpa using ht]
  have hsep : (ds.isEmpty || separated false ds) = true := by
    cases ds with
    | nil => rfl
    | cons c ds =>
      have hc : c ≠ '_' := ne_of_class (hd c List.mem_cons_self) (by decide)
      rw [separated, if_neg hc, separated_of_digits fun d h => hd d (List.mem_cons_of_mem _ h), Bool.or_true]
  rw [readDigits?, List.takeWhile_append_of_pos hrun, List.dropWhile_append_of_pos hrun, htake, hdrop, List.append_nil]
  exact if_pos hsep

/-! ### Numbers -/

private theorem trimBlanks_of_forall {t : List Char} (h : ∀ c ∈ t, Text.isBlank c = false) : trimBlanks t = t := by
  have drop {u : List Char} (hu : ∀ c ∈ u, Text.isBlank c = false) : u.dropWhile Text.isBlank = u := by
    cases u with
    | nil => rfl
    | cons c u => simp [hu c List.mem_cons_self]
  rw [trimBlanks, drop h, drop (fun c hc => h c (List.mem_reverse.1 hc)), List.reverse_reverse]

/-- A text that begins with a digit is not a name. -/
private theorem lower_ne {d : Char} (hd : isDigit d = true) (t : List Char) {n : Char} (hn : isDigit n = false)
    (name : List Char) : (d :: t).map Char.toLower ≠ n :: name := by
  -- lower case changes capital letters only, and they come after the digits
  have hlow : d.toLower = d := by
    have := toNat_of_isDigit hd
    refine dif_neg fun h => ?_
    have : 65 ≤ d.toNat := UInt32.le_iff_toNat_le.1 h.1
    omega
  rw [List.map_cons, hlow]
  exact fun e => ne_of_class hd hn (List.cons.inj e).1

/-- A text of digits and points that begins with a digit has no sign, and no blanks around it. -/
private theorem read?_eq_readMagnitude? {d : Char} {t : List Char} (hd : isDigit d = true)
    (ht : ∀ c ∈ t, isDigit c = true ∨ c = '.') : read? (d :: t) = readMagnitude? (d :: t) := by
  have hblank : ∀ c ∈ d :: t, Text.isBlank c = false := by
    intro c hc
    rcases List.mem_cons.1 hc with rfl | hc
    · have := toNat_of_isDigit hd
      exact isBlank_of_toNat (by omega)
    · rcases ht c hc with h | rfl
      · have := toNat_of_isDigit h
        exact isBlank_of_toNat (by omega)
      · decide
  have hsign : readSign (d :: t) = (false, d :: t) := by
    unfold readSign
    split
    · rename_i e
      exact absurd (List.cons.inj e).1 (ne_of_class hd (by decide))
    · rename_i e
      exact absurd (List.cons.inj e).1 (ne_of_class hd (by decide))
    · rfl
  rw [read?, trimBlanks_of_forall hblank, hsign]
  simp

private theorem readMagnitude?_eq {d : Char} (hd : isDigit d = true) (t : List Char) :
    readMagnitude? (d :: t) = (do
      let (whole, tail) ← readDigits? (d :: t)
      let (fraction, tail) ← match tail with
        | '.' :: rest => readDigits? rest
        | _ => some ([], tail)
      if whole.isEmpty && fraction.isEmpty then none
      else
        let e ← readExponent? tail
        some (nearest (digitsValue (digitsValue 0 whole) fraction) (e - fraction.length))) := by
  have hinf : (d :: t).map Char.toLower ≠ "inf".toList := lower_ne hd t (by decide) ['n', 'f']
  have hinfinity : (d :: t).map Char.toLower ≠ "infinity".toList :=
    lower_ne hd t (by decide) ['n', 'f', 'i', 'n', 'i', 't', 'y']
  have hnan : (d :: t).map Char.toLower ≠ "nan".toList := lower_ne hd t (by decide) ['a', 'n']
  exact (if_neg (not_or.2 ⟨hinf, hinfinity⟩)).trans (if_neg hnan)

/-- The value of digits. -/
theorem read?_whole {d : Char} {ds : List Char} (hd : ∀ c ∈ d :: ds, isDigit c = true) :
    read? (d :: ds) = some (ofDigits ((d :: ds).filterMap Text.digitValue?) []) := by
  have hfirst := hd d List.mem_cons_self
  have hds : ∀ c ∈ ds, isDigit c = true ∨ c = '.' := fun c hc => Or.inl (hd c (List.mem_cons_of_mem d hc))
  have hread := readDigits?_append hd [] rfl
  rw [List.append_nil] at hread
  rw [read?_eq_readMagnitude? hfirst hds, readMagnitude?_eq hfirst, hread]
  simp [digitValue?_of_isDigit hfirst, readExponent?, ofDigits]

/-- The value of digits around a point. -/
theorem read?_fraction {d f : Char} {ds fs : List Char} (hd : ∀ c ∈ d :: ds, isDigit c = true)
    (hf : ∀ c ∈ f :: fs, isDigit c = true) :
    read? (d :: ds ++ '.' :: f :: fs)
      = some (ofDigits ((d :: ds).filterMap Text.digitValue?) ((f :: fs).filterMap Text.digitValue?)) := by
  have hfirst := hd d List.mem_cons_self
  have ht : ∀ c ∈ ds ++ '.' :: f :: fs, isDigit c = true ∨ c = '.' := by
    intro c hc
    rw [List.mem_append, List.mem_cons] at hc
    rcases hc with hc | hc | hc
    · exact Or.inl (hd c (List.mem_cons_of_mem d hc))
    · exact Or.inr hc
    · exact Or.inl (hf c hc)
  have hwhole := readDigits?_append hd ('.' :: f :: fs) rfl
  have hfraction := readDigits?_append hf [] rfl
  rw [List.append_nil] at hfraction
  rw [List.cons_append] at hwhole ⊢
  rw [read?_eq_readMagnitude? hfirst ht, readMagnitude?_eq hfirst, hwhole]
  simp [hfraction, digitValue?_of_isDigit hfirst, readExponent?, ofDigits]

end LoxSyntax.Decimal
