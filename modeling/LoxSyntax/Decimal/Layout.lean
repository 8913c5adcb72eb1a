import LoxSyntax.Decimal.Integer
import LoxSyntax.Decimal.Shortest

/-!
# The text of a number

A number is written with the digits that `Binary.shortest` selects.  A `Layout` says where they stand: which
exponents are written out in positions, and how the other exponents are marked.
-/

namespace LoxSyntax.Decimal

/-- How the digits of a number are laid out. -/
structure Layout where
  /-- the least exponent of the leading digit that is written out in positions -/
  positionalFrom : Int
  /-- the least exponent of the leading digit that is too great for positions -/
  positionalBelow : Int
  /-- what follows the digits of a whole number in positions -/
  wholeTail : List Char
  /-- the mark between digits and exponent -/
  exponentMark : Char
  /-- the sign of an exponent that is not negative -/
  exponentPlus : List Char
  /-- the least count of digits of an exponent -/
  exponentWidth : Nat
  zero : List Char
  infinity : List Char
  notANumber : List Char

/-- A number stands in positions from `0.0001` to below `10^16` and always shows a point there; other exponents have a
sign and at least two digits. -/
def Layout.plain : Layout where
  positionalFrom := -4
  positionalBelow := 16
  wholeTail := ['.', '0']
  exponentMark := 'e'
  exponentPlus := ['+']
  exponentWidth := 2
  zero := ['0', '.', '0']
  infinity := ['i', 'n', 'f']
  notANumber := ['n', 'a', 'n']

/-- A number with zeros in front of it up to a width. -/
def padded (width n : Nat) : List Char :=
  List.replicate (width - (digitChars n).length) '0' ++ digitChars n

/-- The digits without their last zeros. -/
def trimZeros (ds : List Char) : List Char :=
  (ds.reverse.dropWhile (· == '0')).reverse

/-- Digits with a point after the first of them, if there are more. -/
def pointed : List Char → List Char
  | d :: e :: rest => d :: '.' :: e :: rest
  | ds => ds

/-- The exponent after its mark. -/
def Layout.exponentPart (l : Layout) (e : Int) : List Char :=
  l.exponentMark :: (if e < 0 then ['-'] else l.exponentPlus) ++ padded l.exponentWidth e.natAbs

/-- Digits whose first has the exponent `e`, written out in positions. -/
def Layout.positional (l : Layout) (ds : List Char) (e : Int) : List Char :=
  if e < 0 then ['0', '.'] ++ List.replicate (-e - 1).toNat '0' ++ ds
  else
    let whole := e.toNat + 1
    if ds.length ≤ whole then ds ++ List.replicate (whole - ds.length) '0' ++ l.wholeTail
    else ds.take whole ++ '.' :: ds.drop whole

/-- A positive decimal in a layout. -/
def Layout.render (l : Layout) (d : Scientific) : List Char :=
  let all := digitChars d.digits
  let e := d.exponent + all.length - 1
  let ds := trimZeros all
  if l.positionalFrom ≤ e ∧ e < l.positionalBelow then l.positional ds e
  else pointed ds ++ l.exponentPart e

/-- A magnitude in a layout. -/
def Layout.magnitude (l : Layout) : Magnitude → List Char
  | .zero => l.zero
  | .finite v => l.render v.shortest
  | .infinite => l.infinity
  | .notANumber => l.notANumber

/-- A double in a layout; a number that is none has no sign. -/
def Layout.float (l : Layout) (x : Float) : List Char :=
  match Decimal.magnitude x with
  | .notANumber => l.notANumber
  | m => (if isNegative x then ['-'] else []) ++ l.magnitude m

/-- The text of a double. -/
def showFloat (x : Float) : String :=
  String.ofList (Layout.plain.float x)

/-! ### Where positions end -/

example : Layout.plain.render ⟨1, 15⟩ = "1000000000000000.0".toList := by decide

example : Layout.plain.render ⟨1, 16⟩ = "1e+16".toList := by decide

example : Layout.plain.render ⟨1, -4⟩ = "0.0001".toList := by decide

example : Layout.plain.render ⟨15, -6⟩ = "1.5e-05".toList := by decide

end LoxSyntax.Decimal
