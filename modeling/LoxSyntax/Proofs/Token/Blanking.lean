import Mathlib.Data.List.Forall2
import LoxSyntax.Proofs.Token.Lookahead
import LoxSyntax.Proofs.Token.Placement

/-!
# Comments and unexpected characters are blank

A comment, and a character that begins no token, separate what is around them and do nothing else.  So a program keeps
its tokens, where they are and what they form, when spaces are put in the place of all of these; line feeds stay.  Of
the mistakes only a string that is never closed is left.

* `Masks.loosens`: spaces bring up nothing that goes on with a segment before them.
* `segments_blankedText`: the segments of a text with such spaces.
* `reading_blanked`: the tokens, the mistakes and the expression of such a program.
-/

namespace LoxSyntax

/-! ### Spaces in the place of characters -/

namespace Text

/-- A space in the place of a character; a line feed stays. -/
def spaced (c : Char) : Char := if c = '\n' then c else ' '

/-- A text, and the text with spaces in the place of some of its characters. -/
def Masks (t t' : List Char) : Prop := List.Forall₂ (fun c c' => c' = c ∨ c' = spaced c) t t'

variable {t t' u u' : List Char}

theorem isBlank_spaced (c : Char) : Segment.isBlank (spaced c) = true := by
  unfold spaced
  split
  · rename_i h
    rw [h]
    rfl
  · rfl

namespace Masks

theorem refl (t : List Char) : Masks t t := List.forall₂_same.2 fun _ _ => Or.inl rfl

theorem spaced (t : List Char) : Masks t (t.map spaced) :=
  List.forall₂_map_right_iff.2 (List.forall₂_same.2 fun _ _ => Or.inr rfl)

theorem append (h : Masks t t') (hu : Masks u u') : Masks (t ++ u) (t' ++ u') := List.rel_append h hu

theorem length_eq (h : Masks t t') : t'.length = t.length := (List.Forall₂.length_eq h).symm

theorem map_newline (h : Masks t t') : t'.map (· == '\n') = t.map (· == '\n') := by
  induction h with
  | nil => rfl
  | @cons c c' t t' hc _ ih =>
    have hcc : (c' == '\n') = (c == '\n') := by
      rcases hc with rfl | rfl
      · rfl
      · by_cases hn : c = '\n' <;> simp [Text.spaced, hn]
    rw [List.map_cons, List.map_cons, ih, hcc]

/-- What comes first and has no blanks in it is no space that was put there. -/
theorem loosens (h : Masks t t') : Segment.Loosens t t' := by
  intro w hlen hw hp
  induction h generalizing w with
  | nil => exact hp
  | @cons c c' t t' hc _ ih =>
    cases w with
    | nil => exact List.nil_prefix
    | cons d w =>
      obtain ⟨rfl, htail⟩ := List.cons_prefix_cons.1 hp
      obtain ⟨hd, hw⟩ := List.forall_mem_cons.1 hw
      rcases hc with rfl | rfl
      · exact (List.prefix_cons_inj d).2 (ih w (Nat.le_of_succ_le hlen) hw htail)
      · rw [isBlank_spaced] at hd
        cases hd

end Masks

end Text

/-! ### Segments without comments and unexpected characters -/

/-- The shapes of what does nothing but separate, apart from blanks. -/
def Shape.isHidden : Shape → Bool
  | .comment | .unexpected => true
  | _ => false

namespace Segment

/-- The text of a segment, with spaces in the place of a comment or an unexpected character. -/
def blanked (g : Segment) : List Char := if g.shape.isHidden then g.text.map Text.spaced else g.text

/-- A text with spaces in the place of its comments and unexpected characters. -/
def blankedText (t : List Char) : List Char := (segments t).flatMap blanked

/-- The blanks that stand in the place of some characters. -/
def blanks (w : List Char) : List Segment := w.map fun c => ⟨.blank, [Text.spaced c]⟩

/-- What a segment becomes. -/
def pieces (g : Segment) : List Segment := if g.shape.isHidden then blanks g.text else [g]

theorem masks_blanked (g : Segment) : Text.Masks g.text g.blanked := by
  unfold blanked
  split
  · exact .spaced g.text
  · exact .refl g.text

theorem flatten_pieces (g : Segment) : g.pieces.flatMap text = g.blanked := by
  have key (w : List Char) : (blanks w).flatMap text = w.map Text.spaced := by
    induction w with
    | nil => rfl
    | cons c w ih => exact congrArg (Text.spaced c :: ·) ih
  unfold pieces blanked
  split
  · exact key g.text
  · exact List.append_nil g.text

theorem masks_blankedText (t : List Char) : Text.Masks t (blankedText t) := by
  have key (gs : List Segment) : Text.Masks (gs.flatMap text) (gs.flatMap blanked) := by
    induction gs with
    | nil => exact .nil
    | cons g gs ih => exact (masks_blanked g).append ih
  have h := key (segments t)
  rwa [flatten_segments] at h

theorem segments_blanks (w u : List Char) : segments (w.map Text.spaced ++ u) = blanks w ++ segments u := by
  induction w with
  | nil => rfl
  | cons c w ih =>
    have hc : Text.spaced c ∈ [' ', '\r', '\t', '\n'] := by
      unfold Text.spaced
      split <;> simp [*]
    rw [List.map_cons, List.cons_append, segments_blank hc, ih]
    rfl

/-- A string that is never closed is the last segment. -/
theorem eq_nil_of_unterminated {g : Segment} {u : List Char} (h : first? (g.text ++ u) = some g)
    (hg : g.shape = .unterminated) : u = [] :=
  List.self_eq_append_right.1 ((first?_eq_some_iff.1 h).of_unterminated hg).1

theorem segments_cases (t : List Char) :
    ∃ gs last, segments t = gs ++ last ∧ (∀ g ∈ gs, g.shape ≠ .unterminated) ∧
      (∀ g ∈ last, g.shape = .unterminated) ∧ last.length ≤ 1 := by
  induction t using segmentInduction with
  | nil => exact ⟨[], [], segments_nil, by simp, by simp, by simp⟩
  | append g u h ih =>
    rw [segments_append h]
    by_cases hg : g.shape = .unterminated
    · rw [eq_nil_of_unterminated h hg, segments_nil]
      exact ⟨[], [g], rfl, by simp, by simpa using hg, by simp⟩
    · obtain ⟨gs, last, e, hgs, hlast, hlen⟩ := ih
      exact ⟨g :: gs, last, by rw [e, List.cons_append], List.forall_mem_cons.2 ⟨hg, hgs⟩, hlast, hlen⟩

/-- A text with spaces has the segments of the text, and blanks in the place of comments and unexpected characters. -/
theorem segments_blankedText (t : List Char) : segments (blankedText t) = (segments t).flatMap pieces := by
  induction t using segmentInduction with
  | nil => rw [blankedText, segments_nil, List.flatMap_nil, List.flatMap_nil, segments_nil]
  | append g u h ih =>
    rw [blankedText, segments_append h, List.flatMap_cons, List.flatMap_cons, ← ih]
    cases hg : g.shape.isHidden with
    | true =>
      rw [blanked, pieces, if_pos hg, if_pos hg]
      exact segments_blanks g.text (blankedText u)
    | false =>
      rw [blanked, pieces, if_neg (by simp [hg]), if_neg (by simp [hg])]
      refine segments_append ?_
      cases hl : g.shape.isLocal with
      | true => exact first?_congr hl (masks_blankedText u).loosens h
      | false =>
        have hu : u = [] := by
          refine eq_nil_of_unterminated h ?_
          revert hg hl
          cases g.shape <;> simp [Shape.isHidden, Shape.isLocal]
        subst hu
        rw [segments_nil]
        exact h

end Segment

/-! ### Tokens and mistakes -/

namespace Located

/-- What the pieces of segments stand for, if blanks and hidden segments stand for nothing. -/
theorem filterMap_pieces {β : Type} {f f' : Located → Option β} (hb : ∀ p, p.segment.shape = .blank → f' p = none)
    (hh : ∀ p, p.segment.shape.isHidden = true → f p = none)
    (hf : ∀ p, p.segment.shape.isHidden = false → f' p = f p) (start : Nat) (gs : List Segment) :
    (sequence start (gs.flatMap Segment.pieces)).filterMap f' = (sequence start gs).filterMap f := by
  induction gs generalizing start with
  | nil => rfl
  | cons g gs ih =>
    have hlen : (g.pieces.flatMap Segment.text).length = g.text.length := by
      rw [Segment.flatten_pieces]
      exact (Segment.masks_blanked g).length_eq
    have hg : (sequence start g.pieces).filterMap f' = [⟨start, g⟩].filterMap f := by
      cases h : g.shape.isHidden with
      | true =>
        have hnone : f ⟨start, g⟩ = none := hh ⟨start, g⟩ h
        rw [Segment.pieces, if_pos h, List.filterMap_cons_none hnone, List.filterMap_nil, List.filterMap_eq_nil_iff]
        intro p hp
        obtain ⟨c, -, hc⟩ := List.mem_map.1 (segment_mem_of_mem_sequence hp)
        exact hb p (by rw [← hc])
      | false =>
        have hsome : f' ⟨start, g⟩ = f ⟨start, g⟩ := hf ⟨start, g⟩ h
        rw [Segment.pieces, if_neg (by simp [h])]
        show [(⟨start, g⟩ : Located)].filterMap f' = [⟨start, g⟩].filterMap f
        rw [List.filterMap_cons, List.filterMap_cons, hsome]
        rfl
    rw [List.flatMap_cons, sequence_append, List.filterMap_append, hlen, ih, hg, ← List.filterMap_append]
    rfl

end Located

/-! ### Programs -/

/-- A diagnostic of another program, at the same place. -/
def Diagnostic.within (program : String) (d : Diagnostic) : Diagnostic := { d with program := program }

/-- A program with spaces in the place of its comments and unexpected characters. -/
def blankedProgram (program : String) : String := String.ofList (Segment.blankedText program.toList)

theorem toList_blankedProgram (program : String) :
    (blankedProgram program).toList = Segment.blankedText program.toList := String.toList_ofList

theorem ofProgram_blankedProgram (program : String) :
    Located.ofProgram (blankedProgram program)
      = Located.sequence 0 ((Segment.segments program.toList).flatMap Segment.pieces) := by
  rw [Located.ofProgram, toList_blankedProgram, Segment.segments_blankedText]

theorem ofOffset_blankedProgram (program : String) (o : Nat) :
    Position.ofOffset (blankedProgram program).toList o = Position.ofOffset program.toList o := by
  rw [toList_blankedProgram]
  exact Position.ofOffset_congr (Segment.masks_blankedText program.toList).map_newline o

theorem ofOffsets_blankedProgram (program : String) (start stop : Nat) :
    Span.ofOffsets (blankedProgram program).toList start stop = Span.ofOffsets program.toList start stop := by
  rw [Span.ofOffsets, Span.ofOffsets, ofOffset_blankedProgram, ofOffset_blankedProgram]

theorem ending_blankedProgram (program : String) :
    Token.ending (blankedProgram program).toList = Token.ending program.toList := by
  have hlen : (blankedProgram program).toList.length = program.toList.length := by
    rw [toList_blankedProgram]
    exact (Segment.masks_blankedText program.toList).length_eq
  rw [Token.ending, Token.ending, ofOffset_blankedProgram, ofOffsets_blankedProgram, hlen]

theorem Located.token?_of_isHidden {p : Located} (h : p.segment.shape = .blank ∨ p.segment.shape.isHidden = true)
    (t : List Char) : p.token? t = none := by
  obtain ⟨start, shape, text⟩ := p
  cases shape with
  | blank => rfl
  | comment => rfl
  | unexpected => rfl
  | _ => simp [Shape.isHidden] at h

theorem Located.mistake?_blankedProgram (program : String) (p : Located) :
    p.mistake? (blankedProgram program) = (p.mistake? program).map (Diagnostic.within (blankedProgram program)) := by
  rw [mistake?, mistake?, Option.map_map, ofOffsets_blankedProgram]
  rfl

theorem tokens_blankedProgram (program : String) :
    (Lexed.ofProgram (blankedProgram program)).tokens = (Lexed.ofProgram program).tokens := by
  rw [lexed_tokens, lexed_tokens, ofProgram_blankedProgram, ending_blankedProgram]
  congr 1
  apply Located.filterMap_pieces
  · exact fun p hp => p.token?_of_isHidden (Or.inl hp) _
  · exact fun p hp => p.token?_of_isHidden (Or.inr hp) _
  · intro p _
    rw [Located.token?, Located.token?, ofOffsets_blankedProgram]

/-- Of the mistakes in a program only a string that is never closed stays. -/
theorem errors_blankedProgram (program : String) :
    (Lexed.ofProgram (blankedProgram program)).errors = (Located.ofProgram program).filterMap fun p =>
      if p.segment.shape = .unterminated then p.mistake? (blankedProgram program) else none := by
  rw [lexed_errors, ofProgram_blankedProgram]
  apply Located.filterMap_pieces
  · intro p hp
    rw [Located.mistake?, Segment.cause?, hp]
    rfl
  · intro p hp
    refine if_neg fun h => ?_
    rw [h] at hp
    cases hp
  · intro p hp
    by_cases h : p.segment.shape = .unterminated
    · exact (if_pos h).symm
    · rw [if_neg h, Option.eq_none_iff_forall_ne_some]
      intro d hd
      rcases Located.shape_of_mistake? hd with ⟨hs, -⟩ | ⟨hs, -⟩
      · rw [hs] at hp
        cases hp
      · exact h hs

/-- At most the last segment of a program is a string that is never closed. -/
theorem Located.ofProgram_cases (program : String) :
    ∃ ps qs, ofProgram program = ps ++ qs ∧ (∀ p ∈ ps, p.segment.shape ≠ .unterminated) ∧
      (∀ p ∈ qs, p.segment.shape = .unterminated) ∧ qs.length ≤ 1 := by
  obtain ⟨gs, last, e, hgs, hlast, hlen⟩ := Segment.segments_cases program.toList
  refine ⟨_, _, by rw [ofProgram, e, sequence_append], ?_, ?_, ?_⟩
  · exact fun p hp => hgs p.segment (segment_mem_of_mem_sequence hp)
  · exact fun p hp => hlast p.segment (segment_mem_of_mem_sequence hp)
  · rwa [length_sequence]

/-- The mistakes of a program are characters, and then perhaps a string that is never closed, which the program with
spaces has too. -/
theorem errors_cases (program : String) :
    ∃ characters strings : List Diagnostic,
      (Lexed.ofProgram program).errors = characters ++ strings ∧ strings.length ≤ 1 ∧
        (∀ d ∈ characters, d.cause = .unexpectedCharacter) ∧ (∀ d ∈ strings, d.cause = .unterminatedString) ∧
        (Lexed.ofProgram (blankedProgram program)).errors
          = strings.map (Diagnostic.within (blankedProgram program)) := by
  obtain ⟨ps, qs, e, hps, hqs, hlen⟩ := Located.ofProgram_cases program
  rw [errors_blankedProgram, lexed_errors, e, List.filterMap_append, List.filterMap_append]
  refine ⟨_, _, rfl, (List.length_filterMap_le _ qs).trans hlen, ?_, ?_, ?_⟩
  · intro d hd
    obtain ⟨p, hp, hd⟩ := List.mem_filterMap.1 hd
    rcases Located.shape_of_mistake? hd with ⟨-, hc⟩ | ⟨hs, -⟩
    · exact hc
    · exact absurd hs (hps p hp)
  · intro d hd
    obtain ⟨p, hp, hd⟩ := List.mem_filterMap.1 hd
    rcases Located.shape_of_mistake? hd with ⟨hs, -⟩ | ⟨-, hc⟩
    · rw [hqs p hp] at hs
      cases hs
    · exact hc
  · rw [List.filterMap_eq_nil_iff.2 fun p hp => if_neg (hps p hp), List.nil_append, List.map_filterMap]
    refine List.filterMap_congr fun p hp => ?_
    rw [if_pos (hqs p hp), Located.mistake?_blankedProgram]

/-- A program and the program with spaces in the place of its comments and unexpected characters have the same tokens,
with all that belongs to them, and so the same expression or the same mistake in the grammar. -/
theorem reading_blanked (limit : Nat) (program : String) :
    let blanked := blankedProgram program
    (Lexed.ofProgram blanked).tokens = (Lexed.ofProgram program).tokens ∧
      (∃ characters strings : List Diagnostic,
        (Lexed.ofProgram program).errors = characters ++ strings ∧ strings.length ≤ 1 ∧
          (∀ d ∈ characters, d.cause = .unexpectedCharacter) ∧ (∀ d ∈ strings, d.cause = .unterminatedString) ∧
          (Lexed.ofProgram blanked).errors = strings.map (Diagnostic.within blanked)) ∧
      (Parsed.ofProgram limit blanked).tree? = (Parsed.ofProgram limit program).tree? ∧
      (Parsed.ofTokens limit blanked (Lexed.ofProgram blanked).tokens).errors
        = (Parsed.ofTokens limit program (Lexed.ofProgram program).tokens).errors.map (Diagnostic.within blanked) := by
  intro blanked
  have htokens : (Lexed.ofProgram blanked).tokens = (Lexed.ofProgram program).tokens := tokens_blankedProgram program
  refine ⟨htokens, errors_cases program, ?_⟩
  rw [Parsed.ofProgram, Parsed.ofProgram, htokens]
  rcases ExprReader.ofTokens_cases limit (Lexed.ofProgram program).tokens with ⟨e, h⟩ | ⟨t, reason, h⟩
  · rw [h blanked, h program]
    exact ⟨rfl, rfl⟩
  · rw [h blanked, h program]
    exact ⟨rfl, rfl⟩

/-- The number ends before the point, and the quote in the comment opens no string. -/
example : blankedProgram "1.@2 // \"\n& x" = "1. 2     \n  x" := by decide +kernel

end LoxSyntax
