/-!
# Decimal digits and blanks of Unicode

A decimal digit is a character of one of the ten-character runs that Unicode 14 lists as decimal digits, in the order
of their values.  A blank is a character that Unicode lists as white space.

* `digitValue?_ascii`: the ASCII digits have the values they show.
-/

namespace LoxSyntax.Text

/-- The zeros of the runs of decimal digits. -/
def digitZeros : List Nat := [
  0x30, 0x660, 0x6f0, 0x7c0, 0x966, 0x9e6, 0xa66, 0xae6, 0xb66, 0xbe6, 0xc66, 0xce6, 0xd66, 0xde6, 0xe50, 0xed0,
  0xf20, 0x1040, 0x1090, 0x17e0, 0x1810, 0x1946, 0x19d0, 0x1a80, 0x1a90, 0x1b50, 0x1bb0, 0x1c40, 0x1c50, 0xa620,
  0xa8d0, 0xa900, 0xa9d0, 0xa9f0, 0xaa50, 0xabf0, 0xff10, 0x104a0, 0x10d30, 0x11066, 0x110f0, 0x11136, 0x111d0,
  0x112f0, 0x11450, 0x114d0, 0x11650, 0x116c0, 0x11730, 0x118e0, 0x11950, 0x11c50, 0x11d50, 0x11da0, 0x16a60,
  0x16ac0, 0x16b50, 0x1d7ce, 0x1d7d8, 0x1d7e2, 0x1d7ec, 0x1d7f6, 0x1e140, 0x1e2f0, 0x1e950, 0x1fbf0]

/-- The value of a decimal digit. -/
def digitValue? (c : Char) : Option Nat :=
  if c.toNat < 0x80 then
    if 0x30 ≤ c.toNat ∧ c.toNat ≤ 0x39 then some (c.toNat - 0x30) else none
  else (digitZeros.find? fun z => decide (z ≤ c.toNat) && decide (c.toNat ≤ z + 9)).map (c.toNat - ·)

/-- Whether a character beyond ASCII is white space. -/
def isWideBlank (c : Char) : Bool :=
  [0x85, 0xa0, 0x1680, 0x2028, 0x2029, 0x202f, 0x205f, 0x3000].contains c.toNat
    || (decide (0x2000 ≤ c.toNat) && decide (c.toNat ≤ 0x200a))

/-- Whether a character may surround a number: the six ASCII blanks and all white space beyond ASCII. -/
def isBlank (c : Char) : Bool :=
  c == ' ' || (decide (0x9 ≤ c.toNat) && decide (c.toNat ≤ 0xd)) || isWideBlank c

theorem digitValue?_ascii {c : Char} (h : c.toNat < 0x80) :
    digitValue? c = if 0x30 ≤ c.toNat ∧ c.toNat ≤ 0x39 then some (c.toNat - 0x30) else none := by
  simp [digitValue?, h]

end LoxSyntax.Text
