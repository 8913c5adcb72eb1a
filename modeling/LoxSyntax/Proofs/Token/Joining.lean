import LoxSyntax.Proofs.Text.Lines
import LoxSyntax.Proofs.Token.Blanking

/-!
# Programs joined by a line feed

A line feed ends every segment but a string literal or a block comment that is not closed.  So the segments of two
programs with a line feed between them are those of the first, a blank, and those of the second, and what the second
program stands for is the same further down.

* `segments_append_newline`: the segments of the joined text, by induction on the segments of the first.
* `tokens_joined`, `errors_joined`: its tokens and mistakes.
* `reading_joined`: both, with what the mistakes say.
-/

namespace LoxSyntax

namespace Segment

/-- A block comment without a closing mark. -/
def IsOpenComment (g : Segment) : Prop := ∃ b, g.text = '/' :: '*' :: b ∧ ¬ closingMark <:+: b

variable {g : Segment} {t u : List Char}

/-- A line feed brings up nothing that goes on with a segment. -/
theorem Loosens.append_newline (u v : List Char) : Loosens u (u ++ '\n' :: v) := by
  intro w _ hw hp
  rcases Nat.lt_or_ge u.length w.length with hlt | hle
  · -- a longer beginning has the line feed in it
    obtain ⟨tail, htail⟩ := hp
    have hat : w[u.length]? = some '\n' := by
      have hleft : (w ++ tail)[u.length]? = w[u.length]? := List.getElem?_append_left hlt
      rw [← hleft, htail, List.getElem?_append_right (Nat.le_refl _), Nat.sub_self]
      rfl
    have := hw '\n' (List.mem_of_getElem? hat)
    cases this
  · exact List.prefix_of_prefix_length_le hp (List.prefix_append u _) hle

theorem comment_cases (h : first? (g.text ++ u) = some g) (hg : g.shape = .comment) :
    (∃ b, g = ⟨.comment, '/' :: '/' :: b⟩ ∧ '\n' ∉ b ∧ (u = [] ∨ u.head? = some '\n')) ∨
      (∃ b, g = ⟨.comment, '/' :: '*' :: (b ++ closingMark)⟩ ∧ ¬ closingMark <:+: b ++ ['*']) ∨
      (g.IsOpenComment ∧ u = []) := by
  obtain ⟨shape, text⟩ := g
  dsimp only at h hg
  subst hg
  obtain ⟨rest, e, hw⟩ : Begins (text ++ u) .comment text := by
    generalize text ++ u = t at h
    cases first?_eq_some_iff.1 h with
    | longest h => exact h
  obtain rfl : u = rest := List.append_cancel_left e
  cases hw with
  | lineComment hb hr => exact Or.inl ⟨_, rfl, hb, hr⟩
  | closedComment hb => exact Or.inr (Or.inl ⟨_, rfl, hb⟩)
  | openComment hb => exact Or.inr (Or.inr ⟨⟨_, rfl, hb⟩, rfl⟩)

/-- A block comment without a closing mark takes up the rest of the text. -/
theorem eq_nil_of_isOpenComment (h : first? (g.text ++ u) = some g) (hg : g.IsOpenComment) : u = [] := by
  obtain ⟨shape, text⟩ := g
  obtain ⟨b, rfl, hb⟩ := hg
  have hshape : Shape.comment = shape := congrArg Prod.fst (first?_append_iff.1 h)
  subst hshape
  rcases comment_cases h rfl with ⟨b', e, -⟩ | ⟨b', e, -⟩ | ⟨-, hu⟩
  · simp at e
  · obtain rfl : b = b' ++ closingMark := by simpa using e
    exact absurd (List.suffix_append b' closingMark).isInfix hb
  · exact hu

theorem getLast?_of_isOpenComment (h : g ∈ segments t) (hg : g.IsOpenComment) : (segments t).getLast? = some g := by
  induction t using segmentInduction with
  | nil =>
    rw [segments_nil] at h
    cases h
  | append g' u h' ih =>
    rw [segments_append h'] at h ⊢
    rcases List.mem_cons.1 h with rfl | h
    · rw [eq_nil_of_isOpenComment h' hg, segments_nil]
      rfl
    · rw [List.getLast?_cons, ih h, Option.getD_some]

/-- A segment stays first when a line feed is put behind the text, unless it still waits for its end. -/
theorem first?_append_newline (h : first? (g.text ++ u) = some g) (hs : g.shape ≠ .unterminated)
    (hc : ¬ g.IsOpenComment) (v : List Char) : first? (g.text ++ (u ++ '\n' :: v)) = some g := by
  by_cases hg : g.shape = .comment
  · rcases comment_cases h hg with ⟨b, rfl, hb, hu⟩ | ⟨b, rfl, hb⟩ | ⟨hopen, -⟩
    · obtain ⟨v', hv⟩ : ∃ v', u ++ '\n' :: v = '\n' :: v' := by
        rcases hu with rfl | hu
        · exact ⟨v, rfl⟩
        · obtain ⟨u', rfl⟩ := List.head?_eq_some_iff.1 hu
          exact ⟨_, rfl⟩
      rw [hv]
      exact first?_lineComment hb v'
    · exact first?_blockComment hb (u ++ '\n' :: v)
    · exact absurd hopen hc
  · have hlocal : g.shape.isLocal = true := by
      revert hs hg
      cases g.shape <;> simp [Shape.isLocal]
    exact first?_congr hlocal (.append_newline u v) h

theorem segments_append_newline (h : ∀ g ∈ segments t, g.shape ≠ .unterminated ∧ ¬ g.IsOpenComment)
    (v : List Char) : segments (t ++ '\n' :: v) = segments t ++ ⟨.blank, ['\n']⟩ :: segments v := by
  induction t using segmentInduction with
  | nil =>
    rw [segments_nil]
    exact segments_blank (by decide) v
  | append g u hg ih =>
    rw [segments_append hg] at h ⊢
    obtain ⟨⟨hs, hc⟩, hrest⟩ := List.forall_mem_cons.1 h
    rw [List.append_assoc, segments_append (first?_append_newline hg hs hc v), ih hrest, List.cons_append]

end Segment

/-! ### Further down -/

/-- A token `n` lines further down. -/
def Token.below (n : Nat) (t : Token) : Token := { t with line := t.line + n, span := t.span.below n }

/-- A diagnostic `n` lines further down. -/
def Diagnostic.below (n : Nat) (d : Diagnostic) : Diagnostic := { d with span := d.span.below n }

theorem Segment.token?_below (n : Nat) (g : Segment) (span : Span) :
    g.token? (span.below n) = (g.token? span).map (Token.below n) := by
  obtain ⟨shape, text⟩ := g
  cases shape <;> rfl

theorem Span.ofOffsets_append_left {t : List Char} {start stop : Nat} (h : start ≤ stop) (hle : stop ≤ t.length)
    (u : List Char) : Span.ofOffsets (t ++ u) start stop = Span.ofOffsets t start stop := by
  rw [ofOffsets, ofOffsets, Position.ofOffset_append_left (h.trans hle), Position.ofOffset_append_left hle]

theorem Span.ofOffsets_below (t u : List Char) (start stop : Nat) :
    Span.ofOffsets (t ++ '\n' :: u) (t.length + 1 + start) (t.length + 1 + stop)
      = (Span.ofOffsets u start stop).below (1 + t.count '\n') := by
  rw [ofOffsets, Position.ofOffset_below, Position.ofOffset_below]
  rfl

namespace Located

/-- A segment `k` characters further on. -/
def behind (k : Nat) (p : Located) : Located := ⟨k + p.start, p.segment⟩

theorem sequence_behind (k start : Nat) (gs : List Segment) :
    sequence (k + start) gs = (sequence start gs).map (behind k) := by
  induction gs generalizing start with
  | nil => rfl
  | cons g gs ih =>
    rw [sequence, sequence, List.map_cons, ← ih, Nat.add_assoc]
    rfl

theorem exists_mem_sequence (start : Nat) {gs : List Segment} {g : Segment} (h : g ∈ gs) :
    ∃ p ∈ sequence start gs, p.segment = g := by
  induction gs generalizing start with
  | nil => cases h
  | cons g' gs ih =>
    rcases List.mem_cons.1 h with rfl | h
    · exact ⟨_, List.mem_cons_self, rfl⟩
    · obtain ⟨p, hp, hg⟩ := ih (start + g'.text.length) h
      exact ⟨p, List.mem_cons_of_mem _ hp, hg⟩

theorem stop_behind (k : Nat) (p : Located) : (p.behind k).stop = k + p.stop := Nat.add_assoc k _ _

theorem token?_behind (t u : List Char) (p : Located) :
    (p.behind (t.length + 1)).token? (t ++ '\n' :: u) = (p.token? u).map (Token.below (1 + t.count '\n')) := by
  rw [token?, token?, stop_behind, ← Segment.token?_below, ← Span.ofOffsets_below]
  rfl

end Located

/-! ### Programs -/

/-- A program ends in a block comment that is not closed. -/
def EndsInComment (program : String) : Prop :=
  ∃ g, (Segment.segments program.toList).getLast? = some g ∧ g.IsOpenComment

/-- A program ends neither in a string literal nor in a comment that would go on. -/
structure EndsClosed (program : String) : Prop where
  string : ∀ d ∈ (Lexed.ofProgram program).errors, d.cause ≠ .unterminatedString
  comment : ¬ EndsInComment program

/-- Two programs with a line feed between them. -/
def joined (p q : String) : String := p ++ "\n" ++ q

variable {p q : String}

theorem toList_joined (p q : String) : (joined p q).toList = p.toList ++ '\n' :: q.toList := by
  rw [joined, String.toList_append, String.toList_append, List.append_assoc]
  rfl

theorem EndsClosed.segments (h : EndsClosed p) :
    ∀ g ∈ Segment.segments p.toList, g.shape ≠ .unterminated ∧ ¬ g.IsOpenComment := by
  intro g hg
  refine ⟨fun hs => ?_, fun hc => h.comment ⟨g, Segment.getLast?_of_isOpenComment hg hc, hc⟩⟩
  obtain ⟨x, hx, rfl⟩ := Located.exists_mem_sequence 0 hg
  have hmistake : x.mistake? p = some ⟨p, Span.ofOffsets p.toList x.start x.stop, .unterminatedString⟩ := by
    rw [Located.mistake?, Segment.cause?, hs]
    rfl
  have hmem := List.mem_filterMap.2 ⟨x, hx, hmistake⟩
  exact h.string _ (lexed_errors p ▸ hmem) rfl

theorem ofProgram_joined (h : EndsClosed p) (q : String) :
    Located.ofProgram (joined p q) = Located.ofProgram p
      ++ ⟨p.toList.length, .blank, ['\n']⟩ :: (Located.ofProgram q).map (Located.behind (p.toList.length + 1)) := by
  have hflat : ((Segment.segments p.toList).flatMap Segment.text).length = p.toList.length := by
    rw [Segment.flatten_segments]
  unfold Located.ofProgram
  rw [toList_joined, Segment.segments_append_newline h.segments, Located.sequence_append, hflat, Nat.zero_add,
    Located.sequence, ← Located.sequence_behind]
  rfl

theorem tokens_joined (h : EndsClosed p) (q : String) :
    (Lexed.ofProgram (joined p q)).tokens = (Lexed.ofProgram p).tokens.dropLast
      ++ (Lexed.ofProgram q).tokens.map (Token.below (1 + p.toList.count '\n')) := by
  have hleft : (Located.ofProgram p).filterMap (·.token? (joined p q).toList)
      = (Located.ofProgram p).filterMap (·.token? p.toList) := by
    refine List.filterMap_congr fun x hx => ?_
    obtain ⟨-, hlt, hle⟩ := (Located.tiles_ofProgram p).bounds.2 x hx
    rw [Located.token?, Located.token?, toList_joined, Span.ofOffsets_append_left (Nat.le_of_lt hlt) hle]
  have hright : ((Located.ofProgram q).map (Located.behind (p.toList.length + 1))).filterMap
      (·.token? (joined p q).toList)
      = ((Located.ofProgram q).filterMap (·.token? q.toList)).map (Token.below (1 + p.toList.count '\n')) := by
    rw [List.filterMap_map, List.map_filterMap]
    refine List.filterMap_congr fun x _ => ?_
    rw [Function.comp_apply, toList_joined, Located.token?_behind]
  have hblank : (⟨p.toList.length, .blank, ['\n']⟩ : Located).token? (joined p q).toList = none := rfl
  have hending : Token.ending (joined p q).toList = (Token.ending q.toList).below (1 + p.toList.count '\n') := by
    have hlen : (joined p q).toList.length = p.toList.length + 1 + q.toList.length := by
      rw [toList_joined, List.length_append, List.length_cons]
      omega
    rw [Token.ending, hlen, toList_joined, Span.ofOffsets_below, Position.ofOffset_below]
    rfl
  rw [lexed_tokens, lexed_tokens, lexed_tokens, ofProgram_joined h, List.filterMap_append,
    List.filterMap_cons_none hblank, hleft, hright, hending, List.dropLast_concat, List.map_append, List.append_assoc]
  rfl

theorem errors_joined (h : EndsClosed p) (q : String) :
    (Lexed.ofProgram (joined p q)).errors = (Lexed.ofProgram p).errors.map (Diagnostic.within (joined p q))
      ++ (Lexed.ofProgram q).errors.map fun d => (d.below (1 + p.toList.count '\n')).within (joined p q) := by
  have hleft : (Located.ofProgram p).filterMap (·.mistake? (joined p q))
      = ((Located.ofProgram p).filterMap (·.mistake? p)).map (Diagnostic.within (joined p q)) := by
    rw [List.map_filterMap]
    refine List.filterMap_congr fun x hx => ?_
    obtain ⟨-, hlt, hle⟩ := (Located.tiles_ofProgram p).bounds.2 x hx
    rw [Located.mistake?, Located.mistake?, Option.map_map, toList_joined,
      Span.ofOffsets_append_left (Nat.le_of_lt hlt) hle]
    rfl
  have hright : ((Located.ofProgram q).map (Located.behind (p.toList.length + 1))).filterMap (·.mistake? (joined p q))
      = ((Located.ofProgram q).filterMap (·.mistake? q)).map
        fun d => (d.below (1 + p.toList.count '\n')).within (joined p q) := by
    rw [List.filterMap_map, List.map_filterMap]
    refine List.filterMap_congr fun x _ => ?_
    rw [Function.comp_apply, Located.mistake?, Located.mistake?, Option.map_map, toList_joined, Located.stop_behind]
    exact congrArg (fun s => x.segment.cause?.map (Diagnostic.mk (joined p q) s))
      (Span.ofOffsets_below p.toList q.toList x.start x.stop)
  have hblank : (⟨p.toList.length, .blank, ['\n']⟩ : Located).mistake? (joined p q) = none := rfl
  rw [lexed_errors, lexed_errors, lexed_errors, ofProgram_joined h, List.filterMap_append,
    List.filterMap_cons_none hblank, hleft, hright]

/-! ### What the mistakes say -/

namespace Diagnostic

theorem lineAt?_append_left {t : List Char} {n : Int} (h : n ≤ 1 + t.count '\n') (u : List Char) :
    lineAt? (t ++ '\n' :: u) n = lineAt? t n := by
  by_cases hpos : 0 < n
  · rw [lineAt?_of_pos _ hpos, lineAt?_of_pos _ hpos, Text.lines_append, List.getElem?_append_left]
    rw [Text.lines_length]
    omega
  · rw [lineAt?, lineAt?, if_neg (hpos ·.1), if_neg (hpos ·.1)]

theorem lineAt?_below (t u : List Char) {n : Int} (h : 1 ≤ n) :
    lineAt? (t ++ '\n' :: u) (n + (1 + t.count '\n' : Nat)) = lineAt? u n := by
  have hlen := Text.lines_length t
  have hindex : (n + (1 + t.count '\n' : Nat)).toNat - 1 = (Text.lines t).length + (n.toNat - 1) := by omega
  rw [lineAt?_of_pos _ (by omega), lineAt?_of_pos _ (by omega), hindex, Text.lines_append,
    List.getElem?_append_right (Nat.le_add_right _ _), Nat.add_sub_cancel_left]

/-- What is said depends on the cause, the line where a diagnostic starts, and its columns there. -/
theorem message?_congr {d d' : Diagnostic} (hcause : d'.cause = d.cause)
    (hline : lineAt? d'.program.toList d'.span.start.line = lineAt? d.program.toList d.span.start.line)
    (hstart : d'.span.start.column = d.span.start.column) (hstop : d'.span.stop.column = d.span.stop.column) :
    d'.message? = d.message? := by
  rw [message?, message?, hcause, offending, offending, hline, hstart, hstop]

/-- A diagnostic of the first pass, on a line of its program. -/
structure IsLexical (program : String) (d : Diagnostic) : Prop where
  source : d.program = program
  cause : d.cause = .unexpectedCharacter ∨ d.cause = .unterminatedString
  one_le : 1 ≤ d.span.start.line
  le : d.span.start.line ≤ 1 + program.toList.count '\n'

theorem exists_message? {d : Diagnostic} (h : d.cause = .unexpectedCharacter ∨ d.cause = .unterminatedString) :
    ∃ m, d.message? = some m := by
  rcases h with h | h <;> exact ⟨_, by rw [message?, h]⟩

theorem summary?_eq {d : Diagnostic} (h : d.cause = .unexpectedCharacter ∨ d.cause = .unterminatedString) {m : String}
    (hm : d.message? = some m) :
    d.summary? = some ("[line " ++ Decimal.showInt d.span.stop.line ++ "] Error: " ++ m) := by
  have hline : d.line = d.span.stop.line := by
    unfold line
    rcases h with h | h <;> rw [h]
  have hplace : d.cause.place = "" := by
    unfold Cause.place
    rcases h with h | h <;> rw [h]
  have hcolon (s : String) : s ++ "] Error" ++ ": " = s ++ "] Error: " := by
    rw [String.append_assoc]
    rfl
  rw [summary?, hm, hline, hplace, Option.map_some, String.append_empty, hcolon]

end Diagnostic

theorem Position.line_ofOffset_le (t : List Char) (o : Nat) : (ofOffset t o).line ≤ 1 + t.count '\n' := by
  have := (List.take_sublist o t).count_le '\n'
  simp only [ofOffset]
  omega

theorem isLexical_of_mem {program : String} {d : Diagnostic} (h : d ∈ (Lexed.ofProgram program).errors) :
    d.IsLexical program := by
  obtain ⟨start, stop, -, -, hd⟩ := exists_liesAt_of_mem_errors h
  have hspan := hd.span
  refine ⟨hd.source, hd.cause_or, ?_, ?_⟩
  · rw [hspan]
    exact Position.one_le_line _ _
  · rw [hspan]
    exact Position.line_ofOffset_le _ _

/-- Mistakes of the first program say the same. -/
theorem summary?_within {d : Diagnostic} (h : d ∈ (Lexed.ofProgram p).errors) (q : String) :
    ∃ s, d.summary? = some s ∧ (d.within (joined p q)).summary? = some s := by
  have hd := isLexical_of_mem h
  obtain ⟨m, hm⟩ := Diagnostic.exists_message? hd.cause
  have hmessage : (d.within (joined p q)).message? = d.message? := by
    refine Diagnostic.message?_congr rfl ?_ rfl rfl
    show Diagnostic.lineAt? (joined p q).toList d.span.start.line = _
    rw [toList_joined, Diagnostic.lineAt?_append_left hd.le, hd.source]
  have hsummary := Diagnostic.summary?_eq (d := d.within (joined p q)) hd.cause (hmessage.trans hm)
  exact ⟨_, Diagnostic.summary?_eq hd.cause hm, hsummary⟩

/-- Mistakes of the second program say the same of a line further down. -/
theorem summary?_below {d : Diagnostic} (h : d ∈ (Lexed.ofProgram q).errors) (p : String) :
    ∃ m, d.summary? = some ("[line " ++ Decimal.showInt d.span.stop.line ++ "] Error: " ++ m) ∧
      ((d.below (1 + p.toList.count '\n')).within (joined p q)).summary? = some ("[line "
        ++ Decimal.showInt (d.span.stop.line + (1 + p.toList.count '\n' : Nat)) ++ "] Error: " ++ m) := by
  have hd := isLexical_of_mem h
  obtain ⟨m, hm⟩ := Diagnostic.exists_message? hd.cause
  have hmessage : ((d.below (1 + p.toList.count '\n')).within (joined p q)).message? = d.message? := by
    refine Diagnostic.message?_congr rfl ?_ rfl rfl
    show Diagnostic.lineAt? (joined p q).toList (d.span.start.line + (1 + p.toList.count '\n' : Nat)) = _
    rw [toList_joined, Diagnostic.lineAt?_below p.toList q.toList hd.one_le, hd.source]
  have hsummary := Diagnostic.summary?_eq (d := (d.below (1 + p.toList.count '\n')).within (joined p q)) hd.cause
    (hmessage.trans hm)
  exact ⟨m, Diagnostic.summary?_eq hd.cause hm, hsummary⟩

/-- Two programs with a line feed between them, the first of which is closed at its end, have the tokens and the
mistakes of the first and then those of the second further down, and the mistakes say the same of their lines. -/
theorem reading_joined {p : String} (h : EndsClosed p) (q : String) :
    let n := 1 + p.toList.count '\n'
    (Lexed.ofProgram (joined p q)).tokens
        = (Lexed.ofProgram p).tokens.dropLast ++ (Lexed.ofProgram q).tokens.map (Token.below n) ∧
      (Lexed.ofProgram (joined p q)).errors = (Lexed.ofProgram p).errors.map (Diagnostic.within (joined p q))
        ++ (Lexed.ofProgram q).errors.map (fun d => (d.below n).within (joined p q)) ∧
      (∀ d ∈ (Lexed.ofProgram p).errors, ∃ s, d.summary? = some s ∧ (d.within (joined p q)).summary? = some s) ∧
      ∀ d ∈ (Lexed.ofProgram q).errors, ∃ m,
        d.summary? = some ("[line " ++ Decimal.showInt d.span.stop.line ++ "] Error: " ++ m) ∧
        ((d.below n).within (joined p q)).summary?
          = some ("[line " ++ Decimal.showInt (d.span.stop.line + n) ++ "] Error: " ++ m) :=
  ⟨tokens_joined h q, errors_joined h q, fun _ hd => summary?_within hd q, fun _ hd => summary?_below hd p⟩

/-- The line comment does not go on behind the line feed, whatever is in it. -/
theorem reading_joined_comment :
    let p := "@ \"\n\"\n// /*\""
    let q := "& `"
    let n := 1 + p.toList.count '\n'
    EndsClosed p ∧
      (Lexed.ofProgram (joined p q)).tokens
        = (Lexed.ofProgram p).tokens.dropLast ++ (Lexed.ofProgram q).tokens.map (Token.below n) ∧
      (Lexed.ofProgram (joined p q)).errors = (Lexed.ofProgram p).errors.map (Diagnostic.within (joined p q))
        ++ (Lexed.ofProgram q).errors.map (fun d => (d.below n).within (joined p q)) ∧
      (∀ d ∈ (Lexed.ofProgram p).errors, ∃ s, d.summary? = some s ∧ (d.within (joined p q)).summary? = some s) ∧
      ∀ d ∈ (Lexed.ofProgram q).errors, ∃ m,
        d.summary? = some ("[line " ++ Decimal.showInt d.span.stop.line ++ "] Error: " ++ m) ∧
        ((d.below n).within (joined p q)).summary?
          = some ("[line " ++ Decimal.showInt (d.span.stop.line + n) ++ "] Error: " ++ m) := by
  intro p q n
  have h : EndsClosed p := by
    refine ⟨by decide +kernel, ?_⟩
    rintro ⟨g, hg, b, hb, -⟩
    have hlast : (Segment.segments p.toList).getLast? = some ⟨.comment, ['/', '/', ' ', '/', '*', '"']⟩ := by
      decide +kernel
    rw [hlast, Option.some.injEq] at hg
    rw [← hg] at hb
    cases hb
  exact ⟨h, reading_joined h q⟩

end LoxSyntax
