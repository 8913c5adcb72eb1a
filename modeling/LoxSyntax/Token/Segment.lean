import LoxSyntax.Token.Kind

/-!
# Segments of a program text

A program text falls into segments: tokens, blanks, comments, and what is in error.  The first segment of a text is
found by its first character and reaches as far as its class allows.

* `symbol_of_single?`, `symbol_of_equalSuffixed?`, `symbol_of_doubled?`: an operator is written as its symbol.
* `flatten_segments`: the segments, one after the other, make up the text.
* `length_pos_of_mem_segments`: no segment is empty.
-/

namespace LoxSyntax

/-- What a segment is. -/
inductive Shape where
  /-- an operator or a bracket -/
  | operator (kind : Kind)
  /-- an identifier or a reserved word -/
  | word
  /-- a number -/
  | number
  /-- a string literal with its value -/
  | string (value : List Char)
  /-- a space, tab, carriage return or line feed -/
  | blank
  /-- a comment -/
  | comment
  /-- a character that begins no token -/
  | unexpected
  /-- a string literal without its closing quote -/
  | unterminated
  deriving DecidableEq, Repr

/-- A stretch of a program text. -/
structure Segment where
  shape : Shape
  text : List Char
  deriving DecidableEq, Repr

namespace Segment

/-! ### Classes of characters -/

/-- An ASCII digit. -/
def isDigit (c : Char) : Bool := decide ('0' ≤ c) && decide (c ≤ '9')

/-- An ASCII letter or the underscore. -/
def isAlpha (c : Char) : Bool :=
  (decide ('a' ≤ c) && decide (c ≤ 'z')) || (decide ('A' ≤ c) && decide (c ≤ 'Z')) || c == '_'

/-- A character that may stand in a word. -/
def isAlphaNumeric (c : Char) : Bool := isAlpha c || isDigit c

/-- A character that separates tokens. -/
def isBlank (c : Char) : Bool := c == ' ' || c == '\r' || c == '\t' || c == '\n'

/-- A character that opens and closes a string literal. -/
def isQuote (c : Char) : Bool := c == '"' || c == '\x60'

/-- The kind of a character that is a token whatever follows it. -/
def single? : Char → Option Kind
  | '(' => some .leftParen
  | ')' => some .rightParen
  | '\x7b' => some .leftBrace
  | '\x7d' => some .rightBrace
  | ',' => some .comma
  | '.' => some .dot
  | '-' => some .minus
  | '+' => some .plus
  | ';' => some .semicolon
  | '*' => some .star
  | '?' => some .question
  | ':' => some .colon
  | _ => none

/-- The kinds of a character that is a token alone and another one with an equals sign after it. -/
def equalSuffixed? : Char → Option (Kind × Kind)
  | '!' => some (.bang, .bangEqual)
  | '=' => some (.equal, .equalEqual)
  | '>' => some (.greater, .greaterEqual)
  | '<' => some (.less, .lessEqual)
  | _ => none

/-- The kind of a character that is a token only when it is doubled. -/
def doubled? : Char → Option Kind
  | '&' => some .and
  | '|' => some .or
  | _ => none

/-! ### How far a class reaches -/

/-- How many characters are left of a line comment: all up to the next line feed. -/
def lineCommentLength (t : List Char) : Nat := (t.takeWhile (· != '\n')).length

/-- How many characters are left of a block comment: all through the first closing mark, or all. -/
def blockCommentLength : List Char → Nat
  | [] => 0
  | '*' :: '/' :: _ => 2
  | _ :: rest => blockCommentLength rest + 1

/-- How many digits a text begins with. -/
def digitsLength (t : List Char) : Nat := (t.takeWhile isDigit).length

/-- How many characters are left of a number: digits, and a point with digits after it. -/
def numberLength (t : List Char) : Nat :=
  match t.drop (digitsLength t) with
  | '.' :: d :: rest => if isDigit d then digitsLength t + 1 + digitsLength (d :: rest) else digitsLength t
  | _ => digitsLength t

/-- How many characters are left of a word. -/
def wordLength (t : List Char) : Nat := (t.takeWhile isAlphaNumeric).length

/-- The character that a backslash and a character stand for. -/
def unescape : Char → Char
  | 'n' => '\n'
  | 't' => '\t'
  | c => c

/-- What is left of a string literal: the value of its characters, how many they are, and whether a closing quote
follows them. -/
structure Body where
  value : List Char
  length : Nat
  closed : Bool
  deriving DecidableEq, Repr

/-- A body with one more character of value in front, written with `n` characters. -/
def Body.cons (c : Char) (n : Nat) (b : Body) : Body := ⟨c :: b.value, b.length + n, b.closed⟩

/-- How many characters are left of a string literal, with its closing quote. -/
def Body.extent (b : Body) : Nat := b.length + b.closed.toNat

/-- What is left of a string literal after its opening quote; without a quote nothing closes it. -/
def body (quote : Option Char) : List Char → Body
  | [] => ⟨[], 0, false⟩
  | c :: rest =>
    if quote = some c then ⟨[], 0, true⟩
    else if c = '\\' then
      match rest with
      | [] => ⟨[], 1, false⟩
      | e :: rest' => (body quote rest').cons (unescape e) 2
    else (body quote rest).cons c 1

/-! ### The first segment -/

/-- The shape of the segment that begins with `c`, and how many characters it has after `c`. -/
def extent (c : Char) (rest : List Char) : Shape × Nat :=
  if let some k := single? c then (.operator k, 0)
  else if let some (alone, suffixed) := equalSuffixed? c then
    if rest.head? = some '=' then (.operator suffixed, 1) else (.operator alone, 0)
  else if let some k := doubled? c then
    if rest.head? = some c then (.operator k, 1) else (.unexpected, 0)
  else if c = '/' then
    match rest with
    | '/' :: tail => (.comment, lineCommentLength tail + 1)
    | '*' :: tail => (.comment, blockCommentLength tail + 1)
    | _ => (.operator .slash, 0)
  else if isBlank c then (.blank, 0)
  else if isQuote c then
    let b := body (some c) rest
    (if b.closed then .string b.value else .unterminated, b.extent)
  else if isDigit c then (.number, numberLength rest)
  else if isAlpha c then (.word, wordLength rest)
  else (.unexpected, 0)

/-- The first segment of a text. -/
def first? : List Char → Option Segment
  | [] => none
  | c :: rest => some ⟨(extent c rest).1, c :: rest.take (extent c rest).2⟩

theorem symbol_of_single? {c : Char} {k : Kind} (h : single? c = some k) : k.symbol = String.ofList [c] := by
  unfold single? at h
  split at h <;> cases h <;> rfl

theorem symbol_of_equalSuffixed? {c : Char} {k k' : Kind} (h : equalSuffixed? c = some (k, k')) :
    k.symbol = String.ofList [c] ∧ k'.symbol = String.ofList [c, '='] := by
  unfold equalSuffixed? at h
  split at h <;> cases h <;> exact ⟨rfl, rfl⟩

theorem symbol_of_doubled? {c : Char} {k : Kind} (h : doubled? c = some k) : k.symbol = String.ofList [c, c] := by
  unfold doubled? at h
  split at h <;> cases h <;> rfl

theorem drop_extent_length_lt (c : Char) (rest : List Char) (n : Nat) :
    (rest.drop n).length < (c :: rest).length := by
  simp only [List.length_drop, List.length_cons]
  omega

/-- All segments of a text. -/
def segments : List Char → List Segment
  | [] => []
  | c :: rest => ⟨(extent c rest).1, c :: rest.take (extent c rest).2⟩ :: segments (rest.drop (extent c rest).2)
termination_by t => t.length
decreasing_by exact drop_extent_length_lt c rest _

theorem segments_nil : segments [] = [] := by
  rw [segments]

theorem segments_cons (c : Char) (rest : List Char) :
    segments (c :: rest)
      = ⟨(extent c rest).1, c :: rest.take (extent c rest).2⟩ :: segments (rest.drop (extent c rest).2) := by
  rw [segments]

theorem flatten_segments (t : List Char) : (segments t).flatMap Segment.text = t := by
  fun_induction segments t with
  | case1 => rfl
  | case2 c rest ih => simp [ih]

theorem length_pos_of_mem_segments {t : List Char} {g : Segment} (h : g ∈ segments t) : 0 < g.text.length := by
  fun_induction segments t with
  | case1 => simp at h
  | case2 c rest ih =>
    rcases List.mem_cons.1 h with rfl | h
    · simp
    · exact ih h

end Segment

end LoxSyntax
