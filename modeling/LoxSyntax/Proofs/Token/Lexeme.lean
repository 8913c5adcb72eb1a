import LoxSyntax.Token.Segment

/-!
# The lexical grammar

A lexeme is a stretch of a text that belongs to one of the lexical classes; what follows it matters only to comments.
How far a class reaches is counted by functions on the rest of the text, and each of them cuts off a longest lexeme of
its class.

* `lineComment_cut`, `blockComment_cut`, `number_cut`, `body_cut`: what is cut off belongs to the class.
* `lineCommentLength_append`, `blockCommentLength_append`, `le_numberLength`, `body_of_enclosed`: nothing that belongs
  to the class reaches further.
-/

namespace LoxSyntax

/-- The kinds of operators and brackets. -/
def Kind.operators : List Kind :=
  singles ++ [bang, bangEqual, equal, equalEqual, greater, greaterEqual, less, lessEqual, and, or]

/-- The shapes of what belongs to no class. -/
def Shape.isError : Shape → Bool
  | .unexpected | .unterminated => true
  | _ => false

namespace Segment

/-- The characters that open and close string literals. -/
def quotes : List Char := ['"', '\x60']

/-- The mark that ends a block comment. -/
def closingMark : List Char := ['*', '/']

/-- The characters of a string literal between two quotes `q`, and the value that they stand for. -/
inductive Enclosed (q : Char) : (written value : List Char) → Prop
  | nil : Enclosed q [] []
  | plain {c : Char} {w v : List Char} (hq : c ≠ q) (hb : c ≠ '\\') (h : Enclosed q w v) : Enclosed q (c :: w) (c :: v)
  | escape (c : Char) {w v : List Char} (h : Enclosed q w v) : Enclosed q ('\\' :: c :: w) (unescape c :: v)

/-- The lexical classes: the lexemes of a shape, in a text where `rest` comes next. -/
inductive Lexeme : Shape → (w rest : List Char) → Prop
  | operator {k : Kind} (hk : k ∈ Kind.operators) (rest : List Char) : Lexeme (.operator k) k.symbol.toList rest
  | blank {c : Char} (hc : c ∈ [' ', '\r', '\t', '\n']) (rest : List Char) : Lexeme .blank [c] rest
  | lineComment {b rest : List Char} (hb : '\n' ∉ b) (hr : rest = [] ∨ rest.head? = some '\n') :
      Lexeme .comment ('/' :: '/' :: b) rest
  | closedComment {b : List Char} (hb : ¬ closingMark <:+: b ++ ['*']) (rest : List Char) :
      Lexeme .comment ('/' :: '*' :: (b ++ closingMark)) rest
  | openComment {b : List Char} (hb : ¬ closingMark <:+: b) : Lexeme .comment ('/' :: '*' :: b) []
  | whole {d : Char} {ds : List Char} (hd : ∀ c ∈ d :: ds, isDigit c = true) (rest : List Char) :
      Lexeme .number (d :: ds) rest
  | decimal {d f : Char} {ds fs : List Char} (hd : ∀ c ∈ d :: ds, isDigit c = true)
      (hf : ∀ c ∈ f :: fs, isDigit c = true) (rest : List Char) : Lexeme .number (d :: ds ++ '.' :: f :: fs) rest
  | word {c : Char} {w : List Char} (hc : isAlpha c = true) (hw : ∀ c ∈ w, isAlpha c = true ∨ isDigit c = true)
      (rest : List Char) : Lexeme .word (c :: w) rest
  | string {q : Char} {w v : List Char} (hq : q ∈ quotes) (h : Enclosed q w v) (rest : List Char) :
      Lexeme (.string v) (q :: (w ++ [q])) rest

/-! ### The first character -/

theorem ne_of_class {p : Char → Bool} {c d : Char} (h : p c = true) (hd : p d = false) : c ≠ d := by
  rintro rfl
  rw [h] at hd
  cases hd

theorem toNat_of_isDigit {c : Char} (h : isDigit c = true) : 0x30 ≤ c.toNat ∧ c.toNat ≤ 0x39 := by
  simp only [isDigit, Bool.and_eq_true, decide_eq_true_eq] at h
  exact ⟨UInt32.le_iff_toNat_le.1 h.1, UInt32.le_iff_toNat_le.1 h.2⟩

/-- A digit or a letter is no operator, slash, blank or quote. -/
private theorem extent_alphaNumeric {c : Char} (h : isAlphaNumeric c = true) (t : List Char) :
    extent c t = if isDigit c then (.number, numberLength t) else if isAlpha c then (.word, wordLength t)
      else (.unexpected, 0) := by
  have hs : single? c = none := by
    unfold single?
    split <;> first | rfl | (revert h; decide)
  have he : equalSuffixed? c = none := by
    unfold equalSuffixed?
    split <;> first | rfl | (revert h; decide)
  have hd : doubled? c = none := by
    unfold doubled?
    split <;> first | rfl | (revert h; decide)
  have hslash : c ≠ '/' := ne_of_class h (by decide)
  have hblank : isBlank c = false := by
    simp [isBlank, ne_of_class h (show isAlphaNumeric ' ' = false by decide),
      ne_of_class h (show isAlphaNumeric '\r' = false by decide),
      ne_of_class h (show isAlphaNumeric '\t' = false by decide),
      ne_of_class h (show isAlphaNumeric '\n' = false by decide)]
  have hquote : isQuote c = false := by
    simp [isQuote, ne_of_class h (show isAlphaNumeric '"' = false by decide),
      ne_of_class h (show isAlphaNumeric '\x60' = false by decide)]
  unfold extent
  simp [hs, he, hd, hslash, hblank, hquote]

private theorem isDigit_of_isAlpha {c : Char} (h : isAlpha c = true) : isDigit c = false := by
  simp only [isAlpha, Bool.or_eq_true, Bool.and_eq_true, decide_eq_true_eq, beq_iff_eq] at h
  rw [← Bool.not_eq_true]
  intro hd
  have h9 := (toNat_of_isDigit hd).2
  rcases h with (⟨ha, -⟩ | ⟨ha, -⟩) | rfl
  · have : 97 ≤ c.toNat := UInt32.le_iff_toNat_le.1 ha
    omega
  · have : 65 ≤ c.toNat := UInt32.le_iff_toNat_le.1 ha
    omega
  · exact absurd h9 (by decide)

theorem extent_digit {c : Char} (h : isDigit c = true) (t : List Char) : extent c t = (.number, numberLength t) := by
  rw [extent_alphaNumeric (by simp [isAlphaNumeric, h])]
  simp [h]

theorem extent_alpha {c : Char} (h : isAlpha c = true) (t : List Char) : extent c t = (.word, wordLength t) := by
  have hd := isDigit_of_isAlpha h
  rw [extent_alphaNumeric (by simp [isAlphaNumeric, h])]
  simp [h, hd]

theorem extent_quote {q : Char} (hq : q ∈ quotes) (t : List Char) :
    extent q t = (if (body (some q) t).closed then .string (body (some q) t).value else .unterminated,
      (body (some q) t).extent) := by
  simp only [quotes, List.mem_cons, List.not_mem_nil, or_false] at hq
  rcases hq with rfl | rfl <;> rfl

theorem extent_slash (t : List Char) :
    extent '/' t =
      match t with
      | '/' :: tail => (.comment, lineCommentLength tail + 1)
      | '*' :: tail => (.comment, blockCommentLength tail + 1)
      | _ => (.operator .slash, 0) := rfl

theorem extent_blank {c : Char} (hc : c ∈ [' ', '\r', '\t', '\n']) (t : List Char) : extent c t = (.blank, 0) := by
  simp only [List.mem_cons, List.not_mem_nil, or_false] at hc
  rcases hc with rfl | rfl | rfl | rfl <;> rfl

/-! ### Runs of characters of one class -/

theorem of_mem_take_run {p : Char → Bool} {t : List Char} :
    ∀ c ∈ t.take (t.takeWhile p).length, p c = true := by
  have e : t.take (t.takeWhile p).length = t.takeWhile p :=
    (List.prefix_iff_eq_take.1 (List.takeWhile_prefix p)).symm
  rw [e]
  exact fun c hc => List.all_eq_true.1 List.all_takeWhile c hc

/-- What a run leaves does not begin with a character of its class. -/
theorem drop_run {p : Char → Bool} {t : List Char} {c : Char} {rest : List Char}
    (h : t.drop (t.takeWhile p).length = c :: rest) : p c = false := by
  induction t with
  | nil => simp at h
  | cons d t ih =>
    by_cases hd : p d = true
    · simp only [List.takeWhile_cons, hd, ↓reduceIte, List.length_cons, List.drop_succ_cons] at h
      exact ih h
    · simp only [List.takeWhile_cons, hd] at h
      cases h
      simpa using hd

/-- A run takes all characters of its class that come first. -/
theorem length_takeWhile_append {p : Char → Bool} {w : List Char} (hw : ∀ c ∈ w, p c = true) (t : List Char) :
    ((w ++ t).takeWhile p).length = w.length + (t.takeWhile p).length := by
  rw [List.takeWhile_append_of_pos hw, List.length_append]

/-! ### Comments -/

theorem lineComment_cut (t : List Char) :
    '\n' ∉ t.take (lineCommentLength t) ∧
      (t.drop (lineCommentLength t) = [] ∨ (t.drop (lineCommentLength t)).head? = some '\n') := by
  constructor
  · intro h
    have := of_mem_take_run _ h
    simp at this
  · rcases h : t.drop (lineCommentLength t) with _ | ⟨c, rest⟩
    · exact Or.inl rfl
    · have := drop_run h
      exact Or.inr (by simpa using this)

private theorem closingMark_prefix_iff {c : Char} {t : List Char} :
    closingMark <+: c :: t ↔ c = '*' ∧ t.head? = some '/' := by
  cases t with
  | nil => simp [closingMark, List.cons_prefix_cons]
  | cons d t => simp [closingMark, List.cons_prefix_cons, eq_comm]

/-- A text either has a first closing mark or none, and a block comment reaches through the mark or over the text. -/
theorem blockComment_cut (t : List Char) :
    (∃ b rest, t = b ++ (closingMark ++ rest) ∧ ¬ closingMark <:+: b ++ ['*'] ∧ blockCommentLength t = b.length + 2) ∨
      (¬ closingMark <:+: t ∧ blockCommentLength t = t.length) := by
  fun_induction blockCommentLength t with
  | case1 => exact Or.inr ⟨by simp [closingMark], rfl⟩
  | case2 rest => exact Or.inl ⟨[], rest, rfl, by decide, rfl⟩
  | case3 c t hc ih =>
    -- the mark does not begin at the first character
    have hp : ¬ (c = '*' ∧ t.head? = some '/') := by
      rintro ⟨rfl, ht⟩
      obtain ⟨tail, rfl⟩ := List.head?_eq_some_iff.1 ht
      exact hc tail rfl rfl
    rcases ih with ⟨b, rest, rfl, hb, hn⟩ | ⟨ht, hn⟩
    · refine Or.inl ⟨c :: b, rest, rfl, ?_, by simp [hn]⟩
      rw [List.cons_append, List.infix_cons_iff, closingMark_prefix_iff]
      rintro (⟨rfl, h⟩ | h)
      · cases b with
        | nil => simp at h
        | cons d b => exact hp ⟨rfl, by simpa using h⟩
      · exact hb h
    · refine Or.inr ⟨?_, by simp [hn]⟩
      rw [List.infix_cons_iff, closingMark_prefix_iff]
      rintro (h | h)
      · exact hp h
      · exact ht h

theorem blockCommentLength_append {b : List Char} (hb : ¬ closingMark <:+: b ++ ['*']) (rest : List Char) :
    blockCommentLength (b ++ (closingMark ++ rest)) = b.length + 2 := by
  induction b with
  | nil => rfl
  | cons c b ih =>
    rw [List.cons_append, List.infix_cons_iff, closingMark_prefix_iff, not_or] at hb
    have hc : ∀ tail, c = '*' → b ++ (closingMark ++ rest) = '/' :: tail → False := by
      rintro tail rfl e
      apply hb.1
      cases b with
      | nil => cases e
      | cons d b =>
        cases e
        exact ⟨rfl, rfl⟩
    rw [List.cons_append, blockCommentLength.eq_3 _ _ hc, ih hb.2, List.length_cons]

theorem blockCommentLength_open {b : List Char} (hb : ¬ closingMark <:+: b) : blockCommentLength b = b.length := by
  rcases blockComment_cut b with ⟨b', rest, rfl, -, -⟩ | ⟨-, h⟩
  · exact absurd ⟨b', rest, by simp⟩ hb
  · exact h

theorem lineCommentLength_append {b rest : List Char} (hb : '\n' ∉ b) (hr : rest = [] ∨ rest.head? = some '\n') :
    lineCommentLength (b ++ rest) = b.length := by
  have hw : ∀ c ∈ b, (c != '\n') = true := by
    intro c hc
    rw [bne_iff_ne]
    rintro rfl
    exact hb hc
  have hz : (rest.takeWhile (· != '\n')).length = 0 := by
    rcases hr with rfl | hr
    · rfl
    · obtain ⟨tail, rfl⟩ := List.head?_eq_some_iff.1 hr
      rfl
  rw [lineCommentLength, length_takeWhile_append hw, hz, Nat.add_zero]

/-! ### Numbers and words -/

theorem digitsLength_append {ds : List Char} (hd : ∀ c ∈ ds, isDigit c = true) (t : List Char) :
    digitsLength (ds ++ t) = ds.length + digitsLength t :=
  length_takeWhile_append hd t

theorem digitsLength_le_numberLength (t : List Char) : digitsLength t ≤ numberLength t := by
  unfold numberLength
  split
  · split <;> omega
  · exact Nat.le_refl _

theorem numberLength_whole {ds rest : List Char} (hd : ∀ c ∈ ds, isDigit c = true) (hr : digitsLength rest = 0)
    (hp : ∀ f, ['.', f] <+: rest → isDigit f = false) : numberLength (ds ++ rest) = ds.length := by
  have hn : digitsLength (ds ++ rest) = ds.length := by rw [digitsLength_append hd, hr, Nat.add_zero]
  rw [numberLength, hn, List.drop_left]
  split
  · rename_i f tail
    rw [hp f ⟨tail, rfl⟩, if_neg Bool.false_ne_true]
  · rfl

theorem numberLength_decimal {ds fs : List Char} {f : Char} (hd : ∀ c ∈ ds, isDigit c = true)
    (hf : ∀ c ∈ f :: fs, isDigit c = true) (rest : List Char) :
    numberLength (ds ++ '.' :: f :: (fs ++ rest)) = ds.length + fs.length + 2 + digitsLength rest := by
  have hn : digitsLength (ds ++ '.' :: f :: (fs ++ rest)) = ds.length := by
    rw [digitsLength_append hd]
    rfl
  have hfs : digitsLength (f :: (fs ++ rest)) = fs.length + 1 + digitsLength rest := digitsLength_append hf rest
  rw [numberLength, hn, List.drop_left]
  simp only [hf f List.mem_cons_self, ↓reduceIte, hfs]
  omega

theorem le_numberLength {ds fs : List Char} {f : Char} (hd : ∀ c ∈ ds, isDigit c = true)
    (hf : ∀ c ∈ f :: fs, isDigit c = true) (rest : List Char) :
    ds.length + fs.length + 2 ≤ numberLength (ds ++ '.' :: f :: (fs ++ rest)) := by
  rw [numberLength_decimal hd hf]
  exact Nat.le_add_right _ _

/-- What is left of a number is digits, or digits around a point. -/
theorem number_cut (t : List Char) :
    (∀ c ∈ t.take (numberLength t), isDigit c = true) ∨
      ∃ ds f fs, t.take (numberLength t) = ds ++ '.' :: f :: fs ∧ (∀ c ∈ ds, isDigit c = true) ∧
        ∀ c ∈ f :: fs, isDigit c = true := by
  have hd : ∀ c ∈ t.take (digitsLength t), isDigit c = true := of_mem_take_run
  unfold numberLength
  split
  · rename_i f rest h
    split
    · -- a point counts only with a digit after it
      rename_i hf
      have hlen : digitsLength (f :: rest) = (rest.takeWhile isDigit).length + 1 := by simp [digitsLength, hf]
      refine Or.inr ⟨t.take (digitsLength t), f, rest.take (rest.takeWhile isDigit).length, ?_, hd, ?_⟩
      · rw [hlen, Nat.add_assoc, List.take_add, h]
        simp [Nat.add_comm 1]
      · intro c hc
        rcases List.mem_cons.1 hc with rfl | hc
        · exact hf
        · exact of_mem_take_run c hc
    · exact Or.inl hd
  · exact Or.inl hd

theorem of_mem_take_word {t : List Char} {c : Char} (h : c ∈ t.take (wordLength t)) :
    isAlpha c = true ∨ isDigit c = true := by
  have := of_mem_take_run c h
  simpa [isAlphaNumeric] using this

/-! ### String literals -/

private theorem body_cons (quote : Option Char) (c : Char) (rest : List Char) :
    body quote (c :: rest) =
      if quote = some c then ⟨[], 0, true⟩
      else if c = '\\' then
        match rest with
        | [] => ⟨[], 1, false⟩
        | e :: rest' => (body quote rest').cons (unescape e) 2
      else (body quote rest).cons c 1 :=
  body.eq_def quote (c :: rest)

/-- What stands between two quotes is read with its value. -/
theorem body_of_enclosed {q : Char} {w v : List Char} (h : Enclosed q w v) (hq : q ≠ '\\') (rest : List Char) :
    body (some q) (w ++ q :: rest) = ⟨v, w.length, true⟩ := by
  induction h with
  | nil =>
    rw [List.nil_append, body_cons, if_pos rfl]
    rfl
  | @plain c w v hc hb _ ih =>
    have hne : some q ≠ some c := fun e => hc (Option.some.inj e).symm
    rw [List.cons_append, body_cons, if_neg hne, if_neg hb, ih]
    rfl
  | @escape c w v _ ih =>
    have hne : some q ≠ some '\\' := fun e => hq (Option.some.inj e)
    rw [List.cons_append, List.cons_append, body_cons, if_neg hne, if_pos rfl]
    simp only [ih]
    rfl

/-- A body that is closed stands between two quotes; one that is not takes up the rest of the text. -/
theorem body_cut (q : Char) (t : List Char) :
    ((body (some q) t).closed = true → ∃ w rest, t = w ++ q :: rest ∧ w.length = (body (some q) t).length ∧
      Enclosed q w (body (some q) t).value) ∧
    ((body (some q) t).closed = false → (body (some q) t).length = t.length) := by
  fun_induction body (some q) t with
  | case1 => simp
  | case2 c rest h =>
    cases h
    exact ⟨fun _ => ⟨[], rest, rfl, rfl, .nil⟩, by simp⟩
  | case3 h => simp
  | case4 e rest h ih =>
    constructor
    · intro hc
      obtain ⟨w, tail, rfl, hw, hv⟩ := ih.1 hc
      exact ⟨'\\' :: e :: w, tail, rfl, by simp [Body.cons, hw], .escape e hv⟩
    · intro hc
      simpa [Body.cons] using ih.2 hc
  | case5 c rest hq hb ih =>
    constructor
    · intro hc
      obtain ⟨w, tail, rfl, hw, hv⟩ := ih.1 hc
      exact ⟨c :: w, tail, rfl, by simp [Body.cons, hw], .plain (fun e => hq (by rw [e])) hb hv⟩
    · intro hc
      simpa [Body.cons] using ih.2 hc

end Segment

end LoxSyntax
