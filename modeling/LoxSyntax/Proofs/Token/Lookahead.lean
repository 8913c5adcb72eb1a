import LoxSyntax.Proofs.Token.Longest

/-!
# How far a segment looks ahead

Where a token ends is decided by its own characters and by the next two: two, because a point goes on with a number only
if a digit follows it.  So the first segment of a text stays the same when what follows it changes, unless characters
come up there that go on with it; a blank never does.  This does not hold of comments and of strings that are never
closed, which look for a mark that may be anywhere.

* `Loosens`: no characters come up that could go on with a segment.
* `extent_congr`, `first?_congr`: what is cut off then stays cut off.
* `segmentInduction`: induction on a text, segment by segment.
-/

namespace LoxSyntax

/-- Whether the end of a segment is decided by its own characters and the next two. -/
def Shape.isLocal : Shape → Bool
  | .comment | .unterminated => false
  | _ => true

namespace Segment

/-- At most two characters, none of them blank, come first in `u'` only if they come first in `u`. -/
def Loosens (u u' : List Char) : Prop :=
  ∀ w : List Char, w.length ≤ 2 → (∀ c ∈ w, isBlank c = false) → w <+: u' → w <+: u

variable {c : Char} {v u u' : List Char}

namespace Loosens

/-- Nothing comes up where the text ends or goes on with a blank. -/
theorem of_blank (h : ∀ c, u'.head? = some c → isBlank c = true) (u : List Char) : Loosens u u' := by
  intro w _ hw hp
  cases w with
  | nil => exact List.nil_prefix
  | cons c w =>
    obtain ⟨tail, rfl⟩ := hp
    have hc := h c rfl
    rw [hw c List.mem_cons_self] at hc
    cases hc

theorem head? (h : Loosens u u') (hc : isBlank c = false) (hu : u'.head? = some c) : u.head? = some c := by
  obtain ⟨tail, rfl⟩ := List.head?_eq_some_iff.1 hu
  obtain ⟨t, rfl⟩ := h [c] (Nat.le_succ 1) (by simpa using hc) ⟨tail, rfl⟩
  rfl

end Loosens

/-! ### Runs of characters -/

theorem takeWhile_length_eq_zero_iff {p : Char → Bool} :
    (u.takeWhile p).length = 0 ↔ ∀ c, u.head? = some c → p c = false := by
  cases u with
  | nil => simp
  | cons c u => cases h : p c <;> simp [h]

private theorem run_cut {p : Char → Bool} (h : ((v ++ u).takeWhile p).length = v.length) :
    (∀ c ∈ v, p c = true) ∧ (u.takeWhile p).length = 0 := by
  have hv := of_mem_take_run (p := p) (t := v ++ u)
  rw [h, List.take_left] at hv
  rw [length_takeWhile_append hv] at h
  exact ⟨hv, by omega⟩

private theorem run_loosens {p : Char → Bool} (hp : ∀ c, p c = true → isBlank c = false) (hl : Loosens u u')
    (h : (u.takeWhile p).length = 0) : (u'.takeWhile p).length = 0 := by
  rw [takeWhile_length_eq_zero_iff] at h ⊢
  intro c hc
  rw [← Bool.not_eq_true]
  intro hpc
  rw [h c (hl.head? (hp c hpc) hc)] at hpc
  cases hpc

private theorem isBlank_of_isAlphaNumeric (h : isAlphaNumeric c = true) : isBlank c = false := by
  rw [← Bool.not_eq_true]
  intro hb
  simp only [isBlank, Bool.or_eq_true, beq_iff_eq] at hb
  rcases hb with ((rfl | rfl) | rfl) | rfl <;> exact absurd h (by decide)

private theorem isBlank_of_isDigit (h : isDigit c = true) : isBlank c = false :=
  isBlank_of_isAlphaNumeric (by simp [isAlphaNumeric, h])

private theorem wordLength_congr (hl : Loosens u u') (h : wordLength (v ++ u) = v.length) :
    wordLength (v ++ u') = v.length := by
  obtain ⟨hv, hu⟩ := run_cut h
  have hu' : (u'.takeWhile isAlphaNumeric).length = 0 := run_loosens (fun _ => isBlank_of_isAlphaNumeric) hl hu
  rw [wordLength, length_takeWhile_append hv, hu', Nat.add_zero]

private theorem digitsLength_loosens (hl : Loosens u u') (h : digitsLength u = 0) : digitsLength u' = 0 :=
  run_loosens (fun _ => isBlank_of_isDigit) hl h

private theorem numberLength_congr (hl : Loosens u u') (h : numberLength (v ++ u) = v.length) :
    numberLength (v ++ u') = v.length := by
  have hcut := number_cut (v ++ u)
  rw [h, List.take_left] at hcut
  rcases hcut with hv | ⟨ds, f, fs, rfl, hd, hf⟩
  · have hle := digitsLength_le_numberLength (v ++ u)
    rw [digitsLength_append hv] at hle
    refine numberLength_whole hv (digitsLength_loosens hl (by omega)) ?_
    -- a point with a digit after it would have gone on with the number before, too
    intro f hp
    rw [← Bool.not_eq_true]
    intro hf
    have hblank : ∀ c ∈ ['.', f], isBlank c = false :=
      List.forall_mem_cons.2 ⟨rfl, List.forall_mem_singleton.2 (isBlank_of_isDigit hf)⟩
    obtain ⟨rest, rfl⟩ := hl ['.', f] (Nat.le_refl 2) hblank hp
    have hlong : v.length + 0 + 2 ≤ numberLength (v ++ (['.', f] ++ rest)) :=
      le_numberLength hv (List.forall_mem_singleton.2 hf) rest
    omega
  · have e (t : List Char) : ds ++ '.' :: f :: fs ++ t = ds ++ '.' :: f :: (fs ++ t) := by simp
    have hlen : (ds ++ '.' :: f :: fs).length = ds.length + fs.length + 2 := by simp; omega
    rw [e, numberLength_decimal hd hf] at h
    rw [e, numberLength_decimal hd hf, digitsLength_loosens hl (by omega), hlen]

/-! ### The other classes -/

theorem extent_single {k : Kind} (h : single? c = some k) (t : List Char) : extent c t = (.operator k, 0) := by
  unfold extent
  rw [h]

theorem extent_equalSuffixed {k k' : Kind} (h : equalSuffixed? c = some (k, k')) (t : List Char) :
    extent c t = if t.head? = some '=' then (.operator k', 1) else (.operator k, 0) := by
  unfold equalSuffixed? at h
  split at h <;> cases h <;> rfl

theorem extent_doubled {k : Kind} (h : doubled? c = some k) (t : List Char) :
    extent c t = if t.head? = some c then (.operator k, 1) else (.unexpected, 0) := by
  unfold doubled? at h
  split at h <;> cases h <;> rfl

private theorem suffix_congr {d : Char} {a b s : Shape} (hd : isBlank d = false) (hl : Loosens u u')
    (h : (if (v ++ u).head? = some d then (a, 1) else (b, 0)) = (s, v.length)) :
    (if (v ++ u').head? = some d then (a, 1) else (b, 0)) = (s, v.length) := by
  cases v with
  | nil =>
    by_cases hu' : u'.head? = some d
    · rw [List.nil_append, if_pos (hl.head? hd hu')] at h
      cases h
    · rw [List.nil_append, if_neg hu']
      split at h
      · cases h
      · exact h
  | cons e v => exact h

theorem extent_lineComment (t : List Char) : extent '/' ('/' :: t) = (.comment, lineCommentLength t + 1) := rfl

theorem extent_blockComment (t : List Char) : extent '/' ('*' :: t) = (.comment, blockCommentLength t + 1) := rfl

theorem extent_slash_alone {t : List Char} (hl : t.head? ≠ some '/') (hb : t.head? ≠ some '*') :
    extent '/' t = (.operator .slash, 0) := by
  rw [extent_slash]
  split
  · exact absurd rfl hl
  · exact absurd rfl hb
  · rfl

theorem extent_slash_cases (t : List Char) :
    (extent '/' t).1 = .comment ∨
      (t.head? ≠ some '/' ∧ t.head? ≠ some '*' ∧ extent '/' t = (.operator .slash, 0)) := by
  by_cases hl : t.head? = some '/'
  · obtain ⟨tail, rfl⟩ := List.head?_eq_some_iff.1 hl
    exact Or.inl rfl
  by_cases hb : t.head? = some '*'
  · obtain ⟨tail, rfl⟩ := List.head?_eq_some_iff.1 hb
    exact Or.inl rfl
  exact Or.inr ⟨hl, hb, extent_slash_alone hl hb⟩

private theorem slash_congr {s : Shape} (hs : s.isLocal = true) (hl : Loosens u u')
    (h : extent '/' (v ++ u) = (s, v.length)) : extent '/' (v ++ u') = (s, v.length) := by
  rcases extent_slash_cases (v ++ u) with hc | ⟨hl', hb', e⟩
  · rw [h] at hc
    dsimp only at hc
    subst hc
    cases hs
  · rw [h, Prod.mk.injEq] at e
    obtain ⟨rfl, hn⟩ := e
    have hv : v = [] := List.length_eq_zero_iff.1 hn
    subst hv
    exact extent_slash_alone (fun h => hl' (hl.head? rfl h)) (fun h => hb' (hl.head? rfl h))

private theorem quote_congr {q : Char} (hq : q ∈ quotes) {s : Shape} (hs : s.isLocal = true)
    (h : extent q (v ++ u) = (s, v.length)) : extent q (v ++ u') = (s, v.length) := by
  rw [extent_quote hq, Prod.mk.injEq] at h
  obtain ⟨h₁, h₂⟩ := h
  cases hc : (body (some q) (v ++ u)).closed with
  | false =>
    rw [hc, if_neg Bool.false_ne_true] at h₁
    subst h₁
    cases hs
  | true =>
    -- the text up to the closing quote is the segment, whatever comes next
    obtain ⟨w, rest, e, hw, hv⟩ := (body_cut q (v ++ u)).1 hc
    have hlen : v.length = (w ++ [q]).length := by
      rw [← h₂, Body.extent, hc, ← hw]
      simp
    have e' : v ++ u = (w ++ [q]) ++ rest := by rw [e, List.append_assoc, List.singleton_append]
    obtain ⟨rfl, -⟩ := List.append_inj e' hlen
    rw [hc, if_pos rfl] at h₁
    rw [List.append_assoc, List.singleton_append, extent_enclosed hq hv, h₁, List.length_append, List.length_singleton]

/-- A character that belongs to no class is unexpected. -/
private theorem extent_other (h₁ : single? c = none) (h₂ : equalSuffixed? c = none) (h₃ : doubled? c = none)
    (h₄ : c ≠ '/') (h₅ : c ∉ [' ', '\r', '\t', '\n']) (h₆ : c ∉ quotes) (h₇ : isDigit c = false)
    (h₈ : isAlpha c = false) (t : List Char) : extent c t = (.unexpected, 0) := by
  have hb : isBlank c = false := by simpa [isBlank, and_assoc] using h₅
  have hq : isQuote c = false := by simpa [isQuote, quotes] using h₆
  unfold extent
  simp [h₁, h₂, h₃, h₄, hb, hq, h₇, h₈]

/-! ### The first segment -/

/-- A segment that reaches so far in one text reaches as far in another, if nothing comes up behind it that goes on with
it. -/
theorem extent_congr {s : Shape} (hs : s.isLocal = true) (hl : Loosens u u') (h : extent c (v ++ u) = (s, v.length)) :
    extent c (v ++ u') = (s, v.length) := by
  -- one case for each class, in the order in which the first character is tried
  cases h₁ : single? c with
  | some k =>
    rw [extent_single h₁] at h ⊢
    exact h
  | none =>
  cases h₂ : equalSuffixed? c with
  | some k =>
    rw [extent_equalSuffixed h₂] at h ⊢
    exact suffix_congr (by decide) hl h
  | none =>
  cases h₃ : doubled? c with
  | some k =>
    have hc : isBlank c = false := by
      unfold doubled? at h₃
      split at h₃ <;> cases h₃ <;> rfl
    rw [extent_doubled h₃] at h ⊢
    exact suffix_congr hc hl h
  | none =>
  by_cases h₄ : c = '/'
  · subst h₄
    exact slash_congr hs hl h
  by_cases h₅ : c ∈ [' ', '\r', '\t', '\n']
  · rw [extent_blank h₅] at h ⊢
    exact h
  by_cases h₆ : c ∈ quotes
  · exact quote_congr h₆ hs h
  cases h₇ : isDigit c with
  | true =>
    rw [extent_digit h₇, Prod.mk.injEq] at h ⊢
    exact ⟨h.1, numberLength_congr hl h.2⟩
  | false =>
  cases h₈ : isAlpha c with
  | true =>
    rw [extent_alpha h₈, Prod.mk.injEq] at h ⊢
    exact ⟨h.1, wordLength_congr hl h.2⟩
  | false =>
    rw [extent_other h₁ h₂ h₃ h₄ h₅ h₆ h₇ h₈] at h ⊢
    exact h

theorem first?_append_iff {s : Shape} :
    first? (c :: v ++ u) = some ⟨s, c :: v⟩ ↔ extent c (v ++ u) = (s, v.length) := by
  rw [List.cons_append, first?, Option.some.injEq, Segment.mk.injEq, List.cons.injEq]
  constructor
  · rintro ⟨hs, -, hv⟩
    have hlen := congrArg List.length hv
    rw [List.length_take, Nat.min_eq_left (extent_le c (v ++ u))] at hlen
    exact Prod.ext hs hlen
  · intro h
    rw [h]
    exact ⟨rfl, rfl, List.take_left⟩

theorem exists_cons_of_first? {t : List Char} {g : Segment} (h : first? t = some g) : ∃ c v, g.text = c :: v := by
  cases t with
  | nil => cases h
  | cons c t =>
    rw [first?, Option.some.injEq] at h
    exact ⟨c, _, by rw [← h]⟩

/-- The segments of a text are its first segment and the segments of what comes then. -/
theorem segments_append {g : Segment} (h : first? (g.text ++ u) = some g) :
    segments (g.text ++ u) = g :: segments u := by
  obtain ⟨c, v, hg⟩ := exists_cons_of_first? h
  obtain ⟨s, text⟩ := g
  dsimp only at hg
  subst hg
  have e := first?_append_iff.1 h
  rw [List.cons_append, segments_cons, e, List.take_left, List.drop_left]

theorem first?_blank (hc : c ∈ [' ', '\r', '\t', '\n']) (u : List Char) :
    first? ([c] ++ u) = some ⟨.blank, [c]⟩ :=
  first?_append_iff.2 (extent_blank hc u)

theorem segments_blank (hc : c ∈ [' ', '\r', '\t', '\n']) (u : List Char) :
    segments (c :: u) = ⟨.blank, [c]⟩ :: segments u :=
  segments_append (g := ⟨.blank, [c]⟩) (first?_blank hc u)

theorem first?_lineComment {b : List Char} (hb : '\n' ∉ b) (u : List Char) :
    first? ('/' :: '/' :: b ++ '\n' :: u) = some ⟨.comment, '/' :: '/' :: b⟩ := by
  refine first?_append_iff.2 ?_
  rw [List.cons_append, extent_lineComment, lineCommentLength_append hb (Or.inr rfl), List.length_cons]

theorem first?_blockComment {b : List Char} (hb : ¬ closingMark <:+: b ++ ['*']) (u : List Char) :
    first? ('/' :: '*' :: (b ++ closingMark) ++ u) = some ⟨.comment, '/' :: '*' :: (b ++ closingMark)⟩ := by
  refine first?_append_iff.2 ?_
  rw [List.cons_append, extent_blockComment, List.append_assoc, blockCommentLength_append hb, List.length_cons,
    List.length_append]
  rfl

/-- Induction on a text: it is empty, or its first segment comes in front of another text. -/
@[elab_as_elim]
theorem segmentInduction {P : List Char → Prop} (nil : P [])
    (append : ∀ (g : Segment) (u : List Char), first? (g.text ++ u) = some g → P u → P (g.text ++ u)) (t : List Char) :
    P t := by
  fun_induction segments t with
  | case1 => exact nil
  | case2 c rest ih =>
    let g : Segment := ⟨(extent c rest).1, c :: rest.take (extent c rest).2⟩
    have e : g.text ++ rest.drop (extent c rest).2 = c :: rest := by
      rw [List.cons_append, List.take_append_drop]
    have h := append g (rest.drop (extent c rest).2) (by rw [e, first?]) ih
    rwa [e] at h

/-- A segment stays first if nothing comes up behind it that goes on with it. -/
theorem first?_congr {g : Segment} (hs : g.shape.isLocal = true) (hl : Loosens u u')
    (h : first? (g.text ++ u) = some g) : first? (g.text ++ u') = some g := by
  obtain ⟨c, v, hg⟩ := exists_cons_of_first? h
  obtain ⟨s, text⟩ := g
  dsimp only at hg hs
  subst hg
  exact first?_append_iff.2 (extent_congr hs hl (first?_append_iff.1 h))

end Segment

end LoxSyntax
