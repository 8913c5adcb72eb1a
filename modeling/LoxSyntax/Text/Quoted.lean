import LoxSyntax.Text.Printable

/-!
# Quoted texts

A text is shown between two equal quotation marks: apostrophes, unless it holds an apostrophe and no double quote.
The mark, the backslash and what cannot be printed are written as escapes, so that a quoted text stands on one line.

* `newline_not_mem_quoted`: a quoted text holds no line feed.
-/

namespace LoxSyntax.Text

/-- The mark that quotes a text. -/
def quoteMark (t : List Char) : Char :=
  if t.contains '\x27' && !t.contains '"' then '"' else '\x27'

/-- A digit of base sixteen, in lower case. -/
def hexDigit (n : Nat) : Char :=
  if n < 10 then Char.ofNat (0x30 + n) else Char.ofNat (0x57 + n)

/-- The last `width` digits of a number in base sixteen. -/
def hexDigits : (width : Nat) → (n : Nat) → List Char
  | 0, _ => []
  | width + 1, n => hexDigits width (n / 16) ++ [hexDigit (n % 16)]

/-- The escape of a character by its code, in the shortest of the three forms that holds it. -/
def codeEscape (c : Char) : List Char :=
  if c.toNat < 0x100 then '\\' :: 'x' :: hexDigits 2 c.toNat
  else if c.toNat < 0x10000 then '\\' :: 'u' :: hexDigits 4 c.toNat
  else '\\' :: 'U' :: hexDigits 8 c.toNat

/-- How a character is written between two marks `q`. -/
def escaped (q c : Char) : List Char :=
  if c = q ∨ c = '\\' then ['\\', c]
  else if c = '\n' then ['\\', 'n']
  else if c = '\r' then ['\\', 'r']
  else if c = '\t' then ['\\', 't']
  else if printable c then [c]
  else codeEscape c

/-- The quoted form of a text. -/
def quoted (t : List Char) : List Char :=
  quoteMark t :: t.flatMap (escaped (quoteMark t)) ++ [quoteMark t]

/-- The quoted form of a string. -/
def quote (s : String) : String :=
  String.ofList (quoted s.toList)

example : quoted ['i', 't', '\x27', 's'] = ['"', 'i', 't', '\x27', 's', '"'] := by decide

theorem quoteMark_eq (t : List Char) : quoteMark t = '"' ∨ quoteMark t = '\x27' := by
  unfold quoteMark
  split <;> simp

private theorem hexDigit_ne_newline (n : Nat) (h : n < 16) : hexDigit n ≠ '\n' := by
  have key : ∀ m : Fin 16, hexDigit m.val ≠ '\n' := by decide
  exact key ⟨n, h⟩

private theorem newline_not_mem_hexDigits (width n : Nat) : '\n' ∉ hexDigits width n := by
  induction width generalizing n with
  | zero => simp [hexDigits]
  | succ w ih =>
    simp only [hexDigits, List.mem_append, List.mem_singleton, not_or]
    exact ⟨ih _, (hexDigit_ne_newline _ (Nat.mod_lt _ (by decide))).symm⟩

private theorem newline_not_mem_codeEscape (c : Char) : '\n' ∉ codeEscape c := by
  unfold codeEscape
  split
  · simp [newline_not_mem_hexDigits]
  · split <;> simp [newline_not_mem_hexDigits]

theorem newline_not_mem_escaped {q : Char} (c : Char) (hq : q ≠ '\n') : '\n' ∉ escaped q c := by
  unfold escaped
  repeat' split
  · rename_i h
    rcases h with rfl | rfl
    · simp [Ne.symm hq]
    · simp
  · simp
  · simp
  · simp
  · rename_i h _ _ _
    simp [Ne.symm h]
  · exact newline_not_mem_codeEscape c

theorem newline_not_mem_quoted (t : List Char) : '\n' ∉ quoted t := by
  have hq : quoteMark t ≠ '\n' := by
    rcases quoteMark_eq t with h | h <;> rw [h] <;> decide
  simp only [quoted, List.mem_append, List.mem_cons, List.mem_flatMap, List.not_mem_nil, or_false, not_or,
    not_exists, not_and]
  exact ⟨⟨hq.symm, fun c _ => newline_not_mem_escaped c hq⟩, hq.symm⟩

end LoxSyntax.Text
