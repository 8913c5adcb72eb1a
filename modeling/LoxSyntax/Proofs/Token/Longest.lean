import LoxSyntax.Proofs.Token.Lexeme

/-!
# The longest lexeme

The first segment of a text is its longest lexeme.  A text that begins with no lexeme begins with a single unexpected
character, or, if that is a quote, is a string literal that is never closed.

* `lexeme_extent`: a first segment that is not in error is a lexeme.
* `reaches_of_lexeme`: a text that begins with a lexeme has no shorter first segment, and that one is not in error.
* `first?_eq_some_iff`: the first segment is the longest lexeme, or what is in error.
-/

namespace LoxSyntax

namespace Segment

/-- A text begins with the lexeme `w` of a shape. -/
def Begins (t : List Char) (shape : Shape) (w : List Char) : Prop := ∃ rest, t = w ++ rest ∧ Lexeme shape w rest

/-- What comes first in a text. -/
inductive First : List Char → Segment → Prop
  | longest {t w : List Char} {shape : Shape} (h : Begins t shape w)
      (hl : ∀ shape' w', Begins t shape' w' → w'.length ≤ w.length) : First t ⟨shape, w⟩
  | unterminated {q : Char} {rest : List Char} (hq : q ∈ quotes) (h : ∀ shape w, ¬ Begins (q :: rest) shape w) :
      First (q :: rest) ⟨.unterminated, q :: rest⟩
  | unexpected {c : Char} {rest : List Char} (hc : c ∉ quotes) (h : ∀ shape w, ¬ Begins (c :: rest) shape w) :
      First (c :: rest) ⟨.unexpected, [c]⟩

/-! ### What is cut off is a lexeme -/

private theorem lexeme_single {c : Char} {k : Kind} (h : single? c = some k) (t : List Char) :
    Lexeme (.operator k) [c] t := by
  have hk : k ∈ Kind.operators := by
    unfold single? at h
    split at h <;> cases h <;> decide
  have := Lexeme.operator hk t
  rwa [symbol_of_single? h, String.toList_ofList] at this

private theorem lexeme_equalSuffixed {c : Char} {k k' : Kind} (h : equalSuffixed? c = some (k, k')) (t : List Char) :
    Lexeme (.operator k) [c] t ∧ Lexeme (.operator k') [c, '='] t := by
  have hk : k ∈ Kind.operators ∧ k' ∈ Kind.operators := by
    unfold equalSuffixed? at h
    split at h <;> cases h <;> decide
  have h1 := Lexeme.operator hk.1 t
  have h2 := Lexeme.operator hk.2 t
  rw [(symbol_of_equalSuffixed? h).1, String.toList_ofList] at h1
  rw [(symbol_of_equalSuffixed? h).2, String.toList_ofList] at h2
  exact ⟨h1, h2⟩

private theorem lexeme_doubled {c : Char} {k : Kind} (h : doubled? c = some k) (t : List Char) :
    Lexeme (.operator k) [c, c] t := by
  have hk : k ∈ Kind.operators := by
    unfold doubled? at h
    split at h <;> cases h <;> decide
  have := Lexeme.operator hk t
  rwa [symbol_of_doubled? h, String.toList_ofList] at this

private theorem lexeme_lineComment (t : List Char) :
    Lexeme .comment ('/' :: '/' :: t.take (lineCommentLength t)) (t.drop (lineCommentLength t)) :=
  .lineComment (lineComment_cut t).1 (lineComment_cut t).2

private theorem lexeme_blockComment (t : List Char) :
    Lexeme .comment ('/' :: '*' :: t.take (blockCommentLength t)) (t.drop (blockCommentLength t)) := by
  rcases blockComment_cut t with ⟨b, rest, rfl, hb, hn⟩ | ⟨hb, hn⟩
  · have hlen : b.length + 2 = (b ++ closingMark).length := by simp [closingMark]
    rw [hn, hlen, ← List.append_assoc, List.take_left, List.drop_left]
    exact .closedComment hb rest
  · rw [hn, List.take_length, List.drop_length]
    exact .openComment hb

private theorem lexeme_number {c : Char} (hc : isDigit c = true) (t : List Char) :
    Lexeme .number (c :: t.take (numberLength t)) (t.drop (numberLength t)) := by
  rcases number_cut t with h | ⟨ds, f, fs, e, hd, hf⟩
  · exact .whole (List.forall_mem_cons.2 ⟨hc, h⟩) _
  · rw [e]
    exact .decimal (List.forall_mem_cons.2 ⟨hc, hd⟩) hf _

private theorem lexeme_string {q : Char} (hq : q ∈ quotes) {t : List Char} (h : (body (some q) t).closed = true) :
    Lexeme (.string (body (some q) t).value) (q :: t.take (body (some q) t).extent)
      (t.drop (body (some q) t).extent) := by
  obtain ⟨w, rest, e, hw, hv⟩ := (body_cut q t).1 h
  have hlen : (body (some q) t).extent = (w ++ [q]).length := by simp [Body.extent, h, hw]
  have et : t = (w ++ [q]) ++ rest := by rw [e, List.append_assoc, List.singleton_append]
  rw [hlen, show t.take (w ++ [q]).length = w ++ [q] by rw [et, List.take_left]]
  exact .string hq hv _

theorem mem_quotes {c : Char} (h : isQuote c = true) : c ∈ quotes := by
  simpa [isQuote, quotes] using h

/-- A first segment that is not in error is a lexeme. -/
theorem lexeme_extent {c : Char} {t : List Char} (h : (extent c t).1.isError = false) :
    Lexeme (extent c t).1 (c :: t.take (extent c t).2) (t.drop (extent c t).2) := by
  -- one case for each class, in the order in which the first character is tried
  revert h
  unfold extent
  split
  · rename_i k hk
    exact fun _ => lexeme_single hk t
  split
  · rename_i k k' hk
    intro _
    split
    · rename_i ht
      obtain ⟨tail, rfl⟩ := List.head?_eq_some_iff.1 ht
      exact (lexeme_equalSuffixed hk tail).2
    · exact (lexeme_equalSuffixed hk t).1
  split
  · rename_i k hk
    split
    · rename_i ht
      obtain ⟨tail, rfl⟩ := List.head?_eq_some_iff.1 ht
      exact fun _ => lexeme_doubled hk tail
    · intro h
      cases h
  split
  · rename_i hc
    subst hc
    split
    · rename_i tail
      exact fun _ => lexeme_lineComment tail
    · rename_i tail
      exact fun _ => lexeme_blockComment tail
    · exact fun _ => Lexeme.operator (k := .slash) (by decide) t
  split
  · rename_i hc
    exact fun _ => .blank (by simpa [isBlank, or_assoc] using hc) t
  split
  · rename_i hc
    dsimp only
    split
    · rename_i hb
      exact fun _ => lexeme_string (mem_quotes hc) hb
    · intro h
      cases h
  split
  · rename_i hc
    exact fun _ => lexeme_number hc t
  split
  · rename_i hc
    exact fun _ => .word hc (fun _ => of_mem_take_word) _
  · intro h
    cases h

/-! ### A lexeme reaches no further -/

/-- What the first segment is, if the text begins with a lexeme of a shape and of length `n + 1`. -/
structure Reaches (c : Char) (t : List Char) (shape : Shape) (n : Nat) : Prop where
  correct : (extent c t).1.isError = false
  le : n ≤ (extent c t).2
  shape_eq (h : n = (extent c t).2) : shape = (extent c t).1

private theorem reaches_of_le {c : Char} {t : List Char} {shape : Shape} {m n : Nat} (he : extent c t = (shape, m))
    (hs : shape.isError = false) (h : n ≤ m) : Reaches c t shape n :=
  ⟨by rw [he]; exact hs, by rw [he]; exact h, fun _ => by rw [he]⟩

/-- An operator that an equals sign may follow. -/
private theorem reaches_alone {c : Char} {k k' : Kind} (he : ∀ t, extent c t =
    if t.head? = some '=' then (.operator k', 1) else (.operator k, 0)) (t : List Char) :
    Reaches c t (.operator k) 0 := by
  have e := he t
  by_cases h : t.head? = some '='
  · rw [if_pos h] at e
    refine ⟨by rw [e]; rfl, Nat.zero_le _, ?_⟩
    intro hn
    rw [e] at hn
    cases hn
  · rw [if_neg h] at e
    exact reaches_of_le e rfl (Nat.le_refl 0)

private theorem reaches_slash (t : List Char) : Reaches '/' t (.operator .slash) 0 := by
  refine ⟨?_, Nat.zero_le _, ?_⟩ <;> rw [extent_slash] <;> split
  · rfl
  · rfl
  · rfl
  · exact fun h => absurd h (by simp)
  · exact fun h => absurd h (by simp)
  · exact fun _ => rfl

private theorem reaches_operator {k : Kind} (hk : k ∈ Kind.operators) {rest : List Char} {c : Char} {t : List Char}
    (e : k.symbol.toList ++ rest = c :: t) : Reaches c t (.operator k) (k.symbol.toList.length - 1) := by
  simp only [Kind.operators, Kind.singles, List.cons_append, List.nil_append, List.mem_cons, List.not_mem_nil,
    or_false] at hk
  rcases hk with rfl | rfl | rfl | rfl | rfl | rfl | rfl | rfl | rfl | rfl | rfl | rfl | rfl | rfl | rfl | rfl | rfl |
    rfl | rfl | rfl | rfl | rfl | rfl <;> cases e
  -- a slash may also begin a comment
  case inr.inr.inr.inr.inr.inr.inr.inr.inr.inl => exact reaches_slash rest
  all_goals first
    | exact reaches_of_le rfl rfl (Nat.le_refl _)
    | exact reaches_alone (fun _ => rfl) rest

private theorem reaches_number {d : Char} (hd : isDigit d = true) {t : List Char} {n : Nat} (h : n ≤ numberLength t) :
    Reaches d t .number n :=
  reaches_of_le (extent_digit hd t) rfl h

theorem extent_enclosed {q : Char} (hq : q ∈ quotes) {w v : List Char} (h : Enclosed q w v) (rest : List Char) :
    extent q (w ++ q :: rest) = (.string v, w.length + 1) := by
  have hne : q ≠ '\\' := by
    rintro rfl
    revert hq
    decide
  rw [extent_quote hq, body_of_enclosed h hne]
  rfl

/-- A text that begins with a lexeme has no shorter first segment. -/
theorem reaches_of_lexeme {shape : Shape} {w rest : List Char} (h : Lexeme shape w rest) {c : Char} {t : List Char}
    (e : w ++ rest = c :: t) : Reaches c t shape (w.length - 1) := by
  cases h with
  | operator hk => exact reaches_operator hk e
  | blank hc =>
    cases e
    exact reaches_of_le (extent_blank hc _) rfl (Nat.le_refl 0)
  | @lineComment b _ hb hr =>
    obtain ⟨rfl, rfl⟩ := List.cons.inj e
    refine reaches_of_le (extent_slash ('/' :: (b ++ rest))) rfl ?_
    rw [lineCommentLength_append hb hr]
    exact Nat.le_refl _
  | @closedComment b hb =>
    obtain ⟨rfl, rfl⟩ := List.cons.inj e
    refine reaches_of_le (extent_slash ('*' :: (b ++ closingMark ++ rest))) rfl ?_
    rw [List.append_assoc, blockCommentLength_append hb]
    simp [closingMark]
  | @openComment b hb =>
    have e' : '/' :: '*' :: b = c :: t := by simpa using e
    obtain ⟨rfl, rfl⟩ := List.cons.inj e'
    refine reaches_of_le (extent_slash ('*' :: b)) rfl ?_
    rw [blockCommentLength_open hb]
    exact Nat.le_refl _
  | @whole d ds hd =>
    obtain ⟨rfl, rfl⟩ := List.cons.inj e
    have hn : digitsLength (ds ++ rest) = ds.length + digitsLength rest :=
      digitsLength_append (List.forall_mem_cons.1 hd).2 rest
    have hle : digitsLength (ds ++ rest) ≤ numberLength (ds ++ rest) := digitsLength_le_numberLength (ds ++ rest)
    have hds : ds.length ≤ numberLength (ds ++ rest) := by omega
    exact reaches_number (hd d List.mem_cons_self) hds
  | @decimal d f ds fs hd hf =>
    have e' : d :: (ds ++ '.' :: f :: (fs ++ rest)) = c :: t := by simpa using e
    obtain ⟨rfl, rfl⟩ := List.cons.inj e'
    have hle := le_numberLength (List.forall_mem_cons.1 hd).2 hf rest
    apply reaches_number (hd d List.mem_cons_self)
    rw [List.cons_append, List.length_cons, List.length_append, List.length_cons, List.length_cons]
    omega
  | @word a w ha hw =>
    obtain ⟨rfl, rfl⟩ := List.cons.inj e
    have hn : wordLength (w ++ rest) = w.length + wordLength rest :=
      length_takeWhile_append (fun c h => by simpa [isAlphaNumeric] using hw c h) rest
    have hle : w.length ≤ wordLength (w ++ rest) := by omega
    exact reaches_of_le (extent_alpha ha (w ++ rest)) rfl hle
  | @string q w v hq h =>
    have e' : q :: (w ++ q :: rest) = c :: t := by simpa using e
    obtain ⟨rfl, rfl⟩ := List.cons.inj e'
    refine reaches_of_le (extent_enclosed hq h rest) rfl ?_
    simp

/-! ### A segment stays in its text -/

theorem numberLength_le (t : List Char) : numberLength t ≤ t.length := by
  have hd (u : List Char) : digitsLength u ≤ u.length := (List.takeWhile_prefix isDigit).length_le
  unfold numberLength
  split
  · rename_i d rest h
    have hrest := hd (d :: rest)
    have ht := congrArg List.length h
    rw [List.length_drop] at ht
    simp only [List.length_cons] at ht hrest
    split <;> omega
  · exact hd t

private theorem blockCommentLength_le (t : List Char) : blockCommentLength t ≤ t.length := by
  rcases blockComment_cut t with ⟨b, rest, rfl, -, hn⟩ | ⟨-, hn⟩
  · rw [hn, List.length_append, List.length_append]
    simp [closingMark]
  · exact Nat.le_of_eq hn

theorem body_extent_le (q : Char) (t : List Char) : (body (some q) t).extent ≤ t.length := by
  cases h : (body (some q) t).closed with
  | true =>
    obtain ⟨w, rest, e, hw, -⟩ := (body_cut q t).1 h
    have ht := congrArg List.length e
    rw [List.length_append, List.length_cons] at ht
    simp only [Body.extent, h, Bool.toNat_true]
    omega
  | false => simp [Body.extent, h, (body_cut q t).2 h]

theorem extent_le (c : Char) (t : List Char) : (extent c t).2 ≤ t.length := by
  have one {d : Char} (h : t.head? = some d) : 1 ≤ t.length := by
    obtain ⟨tail, rfl⟩ := List.head?_eq_some_iff.1 h
    exact Nat.succ_le_of_lt (Nat.succ_pos _)
  unfold extent
  split
  · exact Nat.zero_le _
  split
  · split
    · exact one (by assumption)
    · exact Nat.zero_le _
  split
  · split
    · exact one (by assumption)
    · exact Nat.zero_le _
  split
  · split
    · exact Nat.succ_le_succ ((List.takeWhile_prefix _).length_le)
    · exact Nat.succ_le_succ (blockCommentLength_le _)
    · exact Nat.zero_le _
  split
  · exact Nat.zero_le _
  split
  · exact body_extent_le c t
  split
  · exact numberLength_le t
  split
  · exact (List.takeWhile_prefix _).length_le
  · exact Nat.zero_le _

theorem length_cons_take_extent (c : Char) (t : List Char) :
    (c :: t.take (extent c t).2).length = (extent c t).2 + 1 := by
  rw [List.length_cons, List.length_take, Nat.min_eq_left (extent_le c t)]

/-! ### What is in error -/

/-- What the first segment is when it is in error. -/
theorem extent_of_isError {c : Char} {t : List Char} (h : (extent c t).1.isError = true) :
    (c ∈ quotes ∧ extent c t = (.unterminated, t.length)) ∨ (c ∉ quotes ∧ extent c t = (.unexpected, 0)) := by
  by_cases hq : c ∈ quotes
  · refine Or.inl ⟨hq, ?_⟩
    rw [extent_quote hq] at h ⊢
    cases hb : (body (some c) t).closed with
    | true =>
      rw [hb] at h
      cases h
    | false => simp [Body.extent, hb, (body_cut c t).2 hb]
  · refine Or.inr ⟨hq, ?_⟩
    have hc : isQuote c = false := by
      rw [← Bool.not_eq_true]
      exact fun hc => hq (mem_quotes hc)
    revert h
    unfold extent
    rw [hc]
    split
    · exact fun h => nomatch h
    split
    · split <;> exact fun h => nomatch h
    split
    · split
      · exact fun h => nomatch h
      · exact fun _ => rfl
    split
    · split <;> exact fun h => nomatch h
    split
    · exact fun h => nomatch h
    rw [if_neg Bool.false_ne_true]
    split
    · exact fun h => nomatch h
    split
    · exact fun h => nomatch h
    · exact fun _ => rfl

/-! ### The first segment -/

theorem Lexeme.ne_nil {shape : Shape} {w rest : List Char} (h : Lexeme shape w rest) : w ≠ [] := by
  cases h with
  | @operator k hk =>
    cases k <;> exact nofun
  | _ => exact nofun

/-- A text that begins with a lexeme, whose first segment then is no shorter and not in error. -/
theorem reaches_of_begins {c : Char} {t w : List Char} {shape : Shape} (h : Begins (c :: t) shape w) :
    Reaches c t shape (w.length - 1) := by
  obtain ⟨rest, e, hw⟩ := h
  exact reaches_of_lexeme hw e.symm

theorem begins_extent {c : Char} {t : List Char} (h : (extent c t).1.isError = false) :
    Begins (c :: t) (extent c t).1 (c :: t.take (extent c t).2) :=
  ⟨t.drop (extent c t).2, by rw [List.cons_append, List.take_append_drop], lexeme_extent h⟩

theorem first_extent (c : Char) (t : List Char) :
    First (c :: t) ⟨(extent c t).1, c :: t.take (extent c t).2⟩ := by
  cases h : (extent c t).1.isError with
  | false =>
    refine .longest (begins_extent h) ?_
    intro shape w hw
    have hle := (reaches_of_begins hw).le
    rw [length_cons_take_extent]
    omega
  | true =>
    have hn : ∀ shape w, ¬ Begins (c :: t) shape w := by
      intro shape w hw
      have := (reaches_of_begins hw).correct
      rw [h] at this
      cases this
    rcases extent_of_isError h with ⟨hq, e⟩ | ⟨hq, e⟩
    · rw [e, List.take_length]
      exact .unterminated hq hn
    · rw [e]
      exact .unexpected hq hn

/-- What comes first in a text is its first segment. -/
theorem First.eq_extent {c : Char} {t : List Char} {g : Segment} (h : First (c :: t) g) :
    g = ⟨(extent c t).1, c :: t.take (extent c t).2⟩ := by
  have error_of_not (hn : ∀ shape w, ¬ Begins (c :: t) shape w) : (extent c t).1.isError = true := by
    rw [← Bool.not_eq_false]
    exact fun h => hn _ _ (begins_extent h)
  cases h with
  | @longest _ w shape h hl =>
    -- the first segment is a lexeme as well, so that neither of the two is longer
    have hr := reaches_of_begins h
    have hlen := hl _ _ (begins_extent hr.correct)
    have hle := hr.le
    obtain ⟨rest, e, hw⟩ := h
    have hpos : 0 < w.length := List.length_pos_iff.2 hw.ne_nil
    rw [length_cons_take_extent] at hlen
    have hshape := hr.shape_eq (by omega)
    have htext : w = (c :: t).take ((extent c t).2 + 1) := by
      rw [e, show (extent c t).2 + 1 = w.length by omega, List.take_left]
    rw [hshape, htext, List.take_succ_cons]
  | unterminated hq hn =>
    rcases extent_of_isError (error_of_not hn) with ⟨-, e⟩ | ⟨hq', -⟩
    · rw [e, List.take_length]
    · exact absurd hq hq'
  | unexpected hq hn =>
    rcases extent_of_isError (error_of_not hn) with ⟨hq', -⟩ | ⟨-, e⟩
    · exact absurd hq' hq
    · rw [e, List.take_zero]

/-- The first segment is the longest lexeme, or what is in error. -/
theorem first?_eq_some_iff {t : List Char} {g : Segment} : first? t = some g ↔ First t g := by
  cases t with
  | nil =>
    refine ⟨nofun, ?_⟩
    rintro ⟨⟨rest, e, hw⟩, -⟩
    exact absurd (List.append_eq_nil_iff.1 e.symm).1 hw.ne_nil
  | cons c t =>
    rw [first?, Option.some.injEq]
    constructor
    · rintro rfl
      exact first_extent c t
    · exact fun h => h.eq_extent.symm

/-- The star of an opening mark is not the star of a closing one. -/
example : first? "/*/ */ x".toList = some ⟨.comment, "/*/ */".toList⟩ := by decide

end Segment

end LoxSyntax
