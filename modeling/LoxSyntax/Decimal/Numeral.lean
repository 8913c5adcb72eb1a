import LoxSyntax.Text.Digit

/-!
# Reading numbers

A numeral is a run of digits with an optional fraction, optional exponent and optional sign; single underscores may
stand between digits, and blanks may surround the whole.  `read?` gives the nearest double, or nothing when the text
is no numeral.

* `ofDigits`: a whole part and a fraction of plain digits, the only form of numeral that a program text holds.
-/

namespace LoxSyntax.Decimal

/-- The number that digits stand for, after the digits of `start`. -/
def digitsValue (start : Nat) (ds : List Nat) : Nat :=
  ds.foldl (fun n d => 10 * n + d) start

/-- The double nearest to `m · 10^e`; what is far outside the range of doubles is zero or infinite. -/
def nearest (m : Nat) (e : Int) : Float :=
  let top := e + (Nat.toDigits 10 m).length
  if m = 0 ∨ top < -400 then 0.0
  else if 400 < top then 1.0 / 0.0
  else Float.ofScientific m (decide (e < 0)) e.natAbs

/-- The double nearest to the number with these digits before and after the point. -/
def ofDigits (whole fraction : List Nat) : Float :=
  nearest (digitsValue (digitsValue 0 whole) fraction) (-(fraction.length : Int))

/-- Whether every underscore of a run stands between two digits; `digitBefore` tells of what precedes the run. -/
def separated : (digitBefore : Bool) → List Char → Bool
  | digitBefore, [] => digitBefore
  | digitBefore, c :: rest => if c = '_' then digitBefore && separated false rest else separated true rest

/-- Whether a character may stand in a run of digits. -/
def inDigitRun (c : Char) : Bool :=
  c == '_' || (Text.digitValue? c).isSome

/-- The run of digits at the start of a text, which may be empty, and what follows it; nothing when an underscore is
out of place. -/
def readDigits? (t : List Char) : Option (List Nat × List Char) :=
  let run := t.takeWhile inDigitRun
  if run.isEmpty || separated false run then some (run.filterMap Text.digitValue?, t.dropWhile inDigitRun)
  else none

/-- A sign, if there is one: whether it is a minus, and what follows. -/
def readSign : List Char → Bool × List Char
  | '-' :: rest => (true, rest)
  | '+' :: rest => (false, rest)
  | rest => (false, rest)

/-- The exponent that a whole text is: nothing, or a mark, a sign and digits. -/
def readExponent? : List Char → Option Int
  | [] => some 0
  | c :: rest =>
    if c = 'e' ∨ c = 'E' then
      let (negative, tail) := readSign rest
      match readDigits? tail with
      | some (d :: ds, []) =>
        let n : Int := digitsValue 0 (d :: ds)
        some (if negative then -n else n)
      | _ => none
    else none

/-- The magnitude that a whole text without sign and blanks is. -/
def readMagnitude? (t : List Char) : Option Float :=
  let lower := t.map Char.toLower
  if lower = "inf".toList ∨ lower = "infinity".toList then some (1.0 / 0.0)
  else if lower = "nan".toList then some (0.0 / 0.0)
  else do
    let (whole, tail) ← readDigits? t
    let (fraction, tail) ← match tail with
      | '.' :: rest => readDigits? rest
      | _ => some ([], tail)
    if whole.isEmpty && fraction.isEmpty then none
    else
      let e ← readExponent? tail
      some (nearest (digitsValue (digitsValue 0 whole) fraction) (e - fraction.length))

/-- A text without the blanks around it. -/
def trimBlanks (t : List Char) : List Char :=
  ((t.dropWhile Text.isBlank).reverse.dropWhile Text.isBlank).reverse

/-- The double that a text stands for. -/
def read? (t : List Char) : Option Float :=
  let (negative, tail) := readSign (trimBlanks t)
  (readMagnitude? tail).map fun x => if negative then -x else x

end LoxSyntax.Decimal
