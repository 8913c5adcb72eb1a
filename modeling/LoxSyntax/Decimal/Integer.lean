/-!
# The text of an integer

An integer is written with its decimal digits, behind a minus if it is negative.  An interpreter may be set to refuse
integers of more than some thousands of digits; every integer has a text here.

* `isDigit_of_mem_digitChars`: the digits are digits.
* `newline_not_mem_integerChars`: an integer stands on one line.
-/

namespace LoxSyntax.Decimal

/-- The decimal digits of a number. -/
def digitChars (n : Nat) : List Char := Nat.toDigits 10 n

/-- An integer with its sign. -/
def integerChars (i : Int) : List Char :=
  if i < 0 then '-' :: digitChars i.natAbs else digitChars i.natAbs

/-- The text of an integer. -/
def showInt (i : Int) : String := String.ofList (integerChars i)

theorem isDigit_of_mem_digitChars {n : Nat} {c : Char} (h : c ∈ digitChars n) : c.isDigit = true :=
  Nat.isDigit_of_mem_toDigits (by decide) (by decide) h

theorem newline_not_mem_integerChars (i : Int) : '\n' ∉ integerChars i := by
  have key : '\n' ∉ digitChars i.natAbs := fun h => absurd (isDigit_of_mem_digitChars h) (by decide)
  unfold integerChars
  split
  · simp [key]
  · exact key

end LoxSyntax.Decimal
