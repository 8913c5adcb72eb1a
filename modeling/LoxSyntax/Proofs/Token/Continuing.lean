import LoxSyntax.Proofs.Token.Joining

/-!
# Programs that go on

Reading looks at most two characters past a segment.  So what is read of a program, up to two characters before its end,
stays the same whatever is put behind the program.  A segment with two characters behind it keeps its end, and one
without them gets no shorter, so that nothing comes up in its place.

* `first?_append`: a segment with two characters behind it stays first.
* `extent_le_append`: no segment gets shorter.
* `sequence_append_filter`: the segments that stop two characters before the end, by induction on the segments.
* `reading_continued`: the tokens and the mistakes.
-/

namespace LoxSyntax

namespace Segment

variable {g : Segment} {t u : List Char}

/-! ### Two characters behind a segment -/

theorem Loosens.append_of_le (hu : 2 ≤ u.length) (v : List Char) : Loosens u (u ++ v) := by
  intro w hw _ hp
  exact List.prefix_of_prefix_length_le hp (List.prefix_append u v) (hw.trans hu)

theorem first?_append (h : first? (g.text ++ u) = some g) (hu : 2 ≤ u.length) (v : List Char) :
    first? (g.text ++ (u ++ v)) = some g := by
  have hne : u ≠ [] := by
    rintro rfl
    simp at hu
  by_cases hs : g.shape.isLocal = true
  · exact first?_congr hs (.append_of_le hu v) h
  by_cases hc : g.shape = .comment
  · rcases comment_cases h hc with ⟨b, rfl, hb, hl⟩ | ⟨b, rfl, hb⟩ | ⟨-, hnil⟩
    · obtain ⟨u', rfl⟩ := List.head?_eq_some_iff.1 (hl.resolve_left hne)
      exact first?_lineComment hb (u' ++ v)
    · exact first?_blockComment hb (u ++ v)
    · exact absurd hnil hne
  · have hopen : g.shape = .unterminated := by
      revert hs hc
      cases g.shape <;> simp [Shape.isLocal]
    exact absurd (eq_nil_of_unterminated h hopen) hne

/-! ### Segments get no shorter -/

private theorem length_takeWhile_le_append (p : Char → Bool) (t u : List Char) :
    (t.takeWhile p).length ≤ ((t ++ u).takeWhile p).length := by
  rw [List.takeWhile_append]
  split
  · rw [List.length_append]
    omega
  · exact Nat.le_refl _

private theorem numberLength_le_append (t u : List Char) : numberLength t ≤ numberLength (t ++ u) := by
  have hlen : (t.take (numberLength t)).length = numberLength t := List.length_take_of_le (numberLength_le t)
  have e : t ++ u = t.take (numberLength t) ++ (t.drop (numberLength t) ++ u) := by
    rw [← List.append_assoc, List.take_append_drop]
  rw [e]
  conv => lhs; rw [← hlen]
  rcases number_cut t with hd | ⟨ds, f, fs, hcut, hd, hf⟩
  · refine Nat.le_trans ?_ (digitsLength_le_numberLength _)
    rw [digitsLength_append hd]
    exact Nat.le_add_right _ _
  · have hle := le_numberLength hd hf (t.drop (numberLength t) ++ u)
    rw [hcut, List.append_assoc, List.cons_append, List.cons_append]
    refine Nat.le_trans (Nat.le_of_eq ?_) hle
    simp
    omega

private theorem blockCommentLength_le_append (t u : List Char) :
    blockCommentLength t ≤ blockCommentLength (t ++ u) := by
  rcases blockComment_cut t with ⟨b, rest, rfl, hb, hn⟩ | ⟨hopen, hn⟩
  · rw [hn, List.append_assoc, List.append_assoc, blockCommentLength_append hb]
  · rw [hn]
    rcases blockComment_cut (t ++ u) with ⟨b, rest, e, -, hn'⟩ | ⟨-, hn'⟩
    · rw [hn']
      by_contra hlt
      -- the mark that closes the comment would be in the text
      have hprefix : b ++ closingMark <+: t ++ u := ⟨rest, by rw [e, List.append_assoc]⟩
      have hp : b ++ closingMark <+: t := by
        refine List.prefix_of_prefix_length_le hprefix (List.prefix_append t u) ?_
        rw [List.length_append, show closingMark.length = 2 from rfl]
        omega
      exact hopen ((List.suffix_append b closingMark).isInfix.trans hp.isInfix)
    · rw [hn', List.length_append]
      omega

private theorem body_extent_le_append {q : Char} (hq : q ∈ quotes) (t u : List Char) :
    (body (some q) t).extent ≤ (body (some q) (t ++ u)).extent := by
  have hne : q ≠ '\\' := by
    rintro rfl
    exact absurd hq (by decide)
  have hle := body_extent_le q t
  cases hc : (body (some q) (t ++ u)).closed with
  | false =>
    have hlen := (body_cut q (t ++ u)).2 hc
    rw [List.length_append] at hlen
    have hlong : t.length ≤ (body (some q) (t ++ u)).extent := by
      rw [Body.extent]
      omega
    exact hle.trans hlong
  | true =>
    obtain ⟨w, rest, e, hw, hv⟩ := (body_cut q (t ++ u)).1 hc
    rcases Nat.lt_or_ge w.length t.length with hlt | hge
    · -- the closing quote is in the text, too
      have hprefix : w ++ [q] <+: t ++ u := ⟨rest, by rw [e, List.append_assoc, List.singleton_append]⟩
      have hp : w ++ [q] <+: t := by
        refine List.prefix_of_prefix_length_le hprefix (List.prefix_append t u) ?_
        rw [List.length_append, List.length_singleton]
        omega
      obtain ⟨rest', rfl⟩ := hp
      rw [List.append_assoc, List.append_assoc, List.singleton_append, List.cons_append, body_of_enclosed hv hne,
        body_of_enclosed hv hne]
    · have hlong : t.length ≤ (body (some q) (t ++ u)).extent := by
        rw [Body.extent, hc, ← hw]
        exact Nat.le_succ_of_le hge
      exact hle.trans hlong

private theorem suffix_le_append {a b : Shape} (d : Char) (t u : List Char) :
    (if t.head? = some d then (a, 1) else (b, 0)).2 ≤ (if (t ++ u).head? = some d then (a, 1) else (b, 0)).2 := by
  cases t with
  | nil => exact Nat.zero_le _
  | cons c t => exact Nat.le_refl _

/-- The first segment of a text gets no shorter when something is put behind the text. -/
theorem extent_le_append (c : Char) (t u : List Char) : (extent c t).2 ≤ (extent c (t ++ u)).2 := by
  -- one case for each class, in the order in which the first character is tried
  unfold extent
  split
  · exact Nat.le_refl _
  split
  · exact suffix_le_append '=' t u
  split
  · exact suffix_le_append c t u
  split
  · rcases t with _ | ⟨d, t⟩
    · exact Nat.zero_le _
    · show (extent '/' (d :: t)).2 ≤ (extent '/' (d :: (t ++ u))).2
      by_cases hl : d = '/'
      · subst hl
        exact Nat.succ_le_succ (length_takeWhile_le_append _ t u)
      by_cases hb : d = '*'
      · subst hb
        exact Nat.succ_le_succ (blockCommentLength_le_append t u)
      · rw [extent_slash_alone (by simpa using hl) (by simpa using hb)]
        exact Nat.zero_le _
  split
  · exact Nat.le_refl _
  split
  · rename_i hq
    exact body_extent_le_append (mem_quotes hq) t u
  split
  · exact numberLength_le_append t u
  split
  · exact length_takeWhile_le_append isAlphaNumeric t u
  · exact Nat.le_refl _

end Segment

/-! ### Segments that stop early enough -/

namespace Located

open Segment

theorem le_stop_of_mem_sequence {c : Char} {t : List Char} {start : Nat} {p : Located}
    (h : p ∈ sequence start (segments (c :: t))) : start + (extent c t).2 < p.stop := by
  rw [segments_cons, sequence] at h
  have hlen := length_cons_take_extent c t
  rcases List.mem_cons.1 h with rfl | h
  · simp only [stop, hlen]
    omega
  · have hbound := (tiles_sequence _ _).bounds.2 p h
    simp only [hlen] at hbound
    omega

/-- No segment stops two characters before an offset if the first one does not. -/
private theorem filter_eq_nil {c : Char} {t : List Char} {start n : Nat} (h : n < start + (extent c t).2 + 3) :
    (sequence start (segments (c :: t))).filter (fun p => decide (p.stop + 2 ≤ n)) = [] := by
  rw [List.filter_eq_nil_iff]
  intro p hp
  have hle := le_stop_of_mem_sequence hp
  simp only [decide_eq_true_eq]
  omega

/-- The segments that stop two characters before the end of a text stay the same when the text goes on. -/
theorem sequence_append_filter (t u : List Char) (start : Nat) :
    (sequence start (segments (t ++ u))).filter (fun p => decide (p.stop + 2 ≤ start + t.length))
      = (sequence start (segments t)).filter (fun p => decide (p.stop + 2 ≤ start + t.length)) := by
  induction t using segmentInduction generalizing start with
  | nil =>
    rw [segments_nil]
    cases u with
    | nil => rw [List.append_nil, segments_nil]
    | cons c u => exact filter_eq_nil (by simp only [List.length_nil]; omega)
  | append g r hg ih =>
    rcases Nat.lt_or_ge r.length 2 with hr | hr
    · -- neither this segment nor what comes in its place stops so early
      obtain ⟨c, v, hc⟩ := exists_cons_of_first? hg
      obtain ⟨shape, text⟩ := g
      dsimp only at hc
      subst hc
      have hlen : (extent c (v ++ r)).2 = v.length := congrArg Prod.snd (first?_append_iff.1 hg)
      have hle := extent_le_append c (v ++ r) u
      simp only [List.cons_append, List.length_cons, List.length_append]
      rw [filter_eq_nil (by omega), filter_eq_nil (by omega)]
    · have hbound : start + (g.text ++ r).length = start + g.text.length + r.length := by
        rw [List.length_append, Nat.add_assoc]
      rw [List.append_assoc, segments_append (first?_append hg hr u), segments_append hg, sequence, sequence,
        List.filter_cons, List.filter_cons, hbound, ih]

end Located

/-! ### Tokens and mistakes -/

/-- Whether a span of a text stops two characters before the offset `n`. -/
def Span.stopsBefore (s : Span) (t : List Char) (n : Nat) : Bool :=
  (List.range (n - 1)).any fun o => decide (s.stop = Position.ofOffset t o)

theorem Span.stopsBefore_iff {s : Span} {t : List Char} {n : Nat} :
    s.stopsBefore t n = true ↔ ∃ o, o + 2 ≤ n ∧ s.stop = Position.ofOffset t o := by
  rw [stopsBefore, List.any_eq_true]
  constructor
  · rintro ⟨o, ho, hs⟩
    have hlt := List.mem_range.1 ho
    exact ⟨o, by omega, of_decide_eq_true hs⟩
  · rintro ⟨o, ho, hs⟩
    exact ⟨o, List.mem_range.2 (by omega), decide_eq_true hs⟩

theorem Span.stopsBefore_ofOffsets (t : List Char) (start stop n : Nat) :
    (Span.ofOffsets t start stop).stopsBefore t n = decide (stop + 2 ≤ n) := by
  rw [Bool.eq_iff_iff, stopsBefore_iff, decide_eq_true_eq]
  constructor
  · rintro ⟨o, ho, hs⟩
    rwa [Position.ofOffset_injective t hs]
  · exact fun h => ⟨stop, h, rfl⟩

/-- What stands for segments of a text and stops early enough stands for segments that stop early enough. -/
private theorem filter_filterMap {β : Type} {t : List Char} {f : Located → Option β} {span : β → Span}
    (hspan : ∀ x y, f x = some y → span y = Span.ofOffsets t x.start x.stop) (xs : List Located) (n : Nat) :
    (xs.filterMap f).filter (fun y => (span y).stopsBefore t n)
      = (xs.filter fun x => decide (x.stop + 2 ≤ n)).filterMap f := by
  rw [List.filter_filterMap, List.filterMap_filter]
  refine List.filterMap_congr fun x _ => ?_
  cases hx : f x with
  | none => simp
  | some y => simp [Option.filter, hspan x y hx, Span.stopsBefore_ofOffsets]

/-- The tokens of a program that stop two characters before the offset `n`. -/
def tokensBefore (program : String) (n : Nat) : List Token :=
  (Lexed.ofProgram program).tokens.filter fun token => token.span.stopsBefore program.toList n

/-- The mistakes in a program that stop two characters before the offset `n`. -/
def errorsBefore (program : String) (n : Nat) : Log :=
  (Lexed.ofProgram program).errors.filter fun d => d.span.stopsBefore program.toList n

theorem tokensBefore_eq {program : String} {n : Nat} (h : n ≤ program.toList.length) :
    tokensBefore program n
      = ((Located.ofProgram program).filter fun x => decide (x.stop + 2 ≤ n)).filterMap
        (·.token? program.toList) := by
  have hending : (Token.ending program.toList).span.stopsBefore program.toList n = false := by
    show (Span.ofOffsets _ _ _).stopsBefore _ _ = false
    rw [Span.stopsBefore_ofOffsets, decide_eq_false_iff_not]
    omega
  have hspan (x : Located) (token : Token) (hx : x.token? program.toList = some token) :
      token.span = Span.ofOffsets program.toList x.start x.stop := (Segment.token?_fields hx).1
  rw [tokensBefore, lexed_tokens, List.filter_append, filter_filterMap hspan,
    List.filter_cons_of_neg (by simp [hending]), List.filter_nil, List.append_nil]

theorem errorsBefore_eq (program : String) (n : Nat) :
    errorsBefore program n
      = ((Located.ofProgram program).filter fun x => decide (x.stop + 2 ≤ n)).filterMap (·.mistake? program) := by
  rw [errorsBefore, lexed_errors]
  refine filter_filterMap (fun x d hx => ?_) _ n
  obtain ⟨cause, -, rfl⟩ := Option.map_eq_some_iff.1 hx
  rfl

variable (p q : String)

theorem ofProgram_append_filter :
    (Located.ofProgram (p ++ q)).filter (fun x => decide (x.stop + 2 ≤ p.toList.length))
      = (Located.ofProgram p).filter (fun x => decide (x.stop + 2 ≤ p.toList.length)) := by
  have key := Located.sequence_append_filter p.toList q.toList 0
  rwa [Nat.zero_add, ← String.toList_append] at key

private theorem ofOffsets_of_mem {x : Located}
    (hx : x ∈ (Located.ofProgram p).filter fun x => decide (x.stop + 2 ≤ p.toList.length)) :
    Span.ofOffsets (p ++ q).toList x.start x.stop = Span.ofOffsets p.toList x.start x.stop := by
  obtain ⟨-, hlt, hle⟩ := (Located.tiles_ofProgram p).bounds.2 x (List.mem_of_mem_filter hx)
  rw [String.toList_append, Span.ofOffsets_append_left (Nat.le_of_lt hlt) hle]

/-- What is read of a program, up to two characters before its end, is what is read there when the program goes on: the
same tokens, none of which ends the input, and the same mistakes, all of them unexpected characters. -/
theorem reading_continued (p q : String) :
    tokensBefore (p ++ q) p.toList.length = tokensBefore p p.toList.length ∧
      errorsBefore (p ++ q) p.toList.length = (errorsBefore p p.toList.length).map (Diagnostic.within (p ++ q)) ∧
      (∀ token ∈ tokensBefore p p.toList.length, token.isEnd = false) ∧
      ∀ d ∈ errorsBefore p p.toList.length, d.cause = .unexpectedCharacter := by
  have hn : p.toList.length ≤ (p ++ q).toList.length := by
    rw [String.toList_append, List.length_append]
    exact Nat.le_add_right _ _
  refine ⟨?_, ?_, ?_, ?_⟩
  · rw [tokensBefore_eq hn, ofProgram_append_filter, tokensBefore_eq (Nat.le_refl _)]
    refine List.filterMap_congr fun x hx => ?_
    rw [Located.token?, Located.token?, ofOffsets_of_mem p q hx]
  · rw [errorsBefore_eq, ofProgram_append_filter, errorsBefore_eq, List.map_filterMap]
    refine List.filterMap_congr fun x hx => ?_
    rw [Located.mistake?, Located.mistake?, Option.map_map, ofOffsets_of_mem p q hx]
    rfl
  · intro token ht
    rw [tokensBefore_eq (Nat.le_refl _)] at ht
    obtain ⟨x, hx, htoken⟩ := List.mem_filterMap.1 ht
    exact (Located.first_of_mem_ofProgram (List.mem_of_mem_filter hx)).isEnd_eq_false htoken
  · intro d hd
    obtain ⟨hmem, hstop⟩ := List.mem_filter.1 hd
    obtain ⟨start, stop, -, -, hlies⟩ := exists_liesAt_of_mem_errors hmem
    rcases hlies.cause with ⟨hc, -⟩ | ⟨-, -, rfl⟩
    · exact hc
    · -- a string that is not closed reaches to the end
      rw [hlies.span, Span.stopsBefore_ofOffsets, decide_eq_true_eq] at hstop
      omega

/-- One character is not enough: a point with a digit behind it goes on with the number that stops before it. -/
example : Segment.segments ['1', '.'] = [⟨.number, ['1']⟩, ⟨.operator .dot, ['.']⟩] ∧
    Segment.segments ['1', '.', '5'] = [⟨.number, ['1', '.', '5']⟩] := by
  decide +kernel

end LoxSyntax
