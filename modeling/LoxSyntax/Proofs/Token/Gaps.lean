import LoxSyntax.Proofs.Expr.Unplaced
import LoxSyntax.Proofs.Token.Lookahead
import LoxSyntax.Proofs.Token.Placement

/-!
# What stands between tokens

Between two tokens stand blanks and comments, and which ones they are has no effect.  So the lexemes of a program can be
laid out anew, with any gaps that begin with a blank, and what is read is the same tokens at other places, which form
the same expression.

* `ReadsTo.gap`: a gap adds nothing to what is read, by induction on the gap.
* `readsTo_laidOut`: tokens that are laid out are read, by induction on the list of them.
* `reading_laidOut`: what is read when the tokens of a program are laid out.
-/

namespace LoxSyntax

/-- A gap: blanks, line comments that a line feed ends, and block comments that are closed. -/
inductive Gap : List Char → Prop
  | nil : Gap []
  | blank {c : Char} {w : List Char} (hc : c ∈ [' ', '\r', '\t', '\n']) (h : Gap w) : Gap (c :: w)
  | lineComment {b w : List Char} (hb : '\n' ∉ b) (h : Gap w) : Gap ('/' :: '/' :: b ++ '\n' :: w)
  | blockComment {b w : List Char} (hb : ¬ Segment.closingMark <:+: b ++ ['*']) (h : Gap w) :
      Gap ('/' :: '*' :: (b ++ Segment.closingMark) ++ w)

/-- The gaps behind tokens: each of them begins with a blank, and only the last may be empty. -/
structure Gaps (gaps : List (List Char)) : Prop where
  gap : ∀ w ∈ gaps, Gap w
  blank : ∀ w ∈ gaps, ∀ c, w.head? = some c → Segment.isBlank c = true
  separated : ∀ w ∈ gaps.dropLast, w ≠ []

/-- The text of tokens with a gap behind each of them. -/
def laidOut : List Token → (gaps : List (List Char)) → List Char
  | t :: ts, w :: gaps => t.lexeme.toList ++ w ++ laidOut ts gaps
  | _, _ => []

variable {w : List Char} {gaps : List (List Char)} {ts : List Token}

theorem Gaps.tail (h : Gaps (w :: gaps)) : Gaps gaps := by
  refine ⟨(List.forall_mem_cons.1 h.gap).2, (List.forall_mem_cons.1 h.blank).2, fun v hv => h.separated v ?_⟩
  rw [List.dropLast_cons_of_ne_nil (by rintro rfl; cases hv)]
  exact List.mem_cons_of_mem w hv

/-- What follows a token ends there or goes on with a blank. -/
theorem Gaps.head (h : Gaps (w :: gaps)) (hlen : gaps.length = ts.length) (c : Char)
    (hc : (w ++ laidOut ts gaps).head? = some c) : Segment.isBlank c = true := by
  cases w with
  | nil =>
    cases gaps with
    | nil =>
      obtain rfl := List.length_eq_zero_iff.1 hlen.symm
      cases hc
    | cons v gaps => exact absurd rfl (h.separated [] List.mem_cons_self)
  | cons d w => exact h.blank (d :: w) List.mem_cons_self c hc

namespace Segment

/-- The token that a segment stands for, without its place. -/
def sketch? (g : Segment) : Option Token := (g.token? Span.nowhere).map Token.unplaced

theorem sketch?_eq (g : Segment) (span : Span) : g.sketch? = (g.token? span).map Token.unplaced := by
  obtain ⟨shape, text⟩ := g
  cases shape <;> rfl

theorem isLocal_of_sketch? {g : Segment} {t : Token} (h : g.sketch? = some t) :
    g.shape.isLocal = true ∧ g.cause? = none := by
  obtain ⟨shape, text⟩ := g
  cases shape with
  | blank => cases h
  | comment => cases h
  | unexpected => cases h
  | unterminated => cases h
  | _ => exact ⟨rfl, rfl⟩

end Segment

/-! ### Texts that are read -/

/-- A text is read to tokens, which are given without their places, and there is no mistake in it. -/
def ReadsTo (u : List Char) (ts : List Token) : Prop :=
  (Segment.segments u).filterMap Segment.sketch? = ts ∧ ∀ g ∈ Segment.segments u, g.cause? = none

namespace ReadsTo

variable {u : List Char}

theorem nil : ReadsTo [] [] := by
  simp [ReadsTo, Segment.segments_nil]

/-- What comes first in a text adds the token that it stands for. -/
theorem append {g : Segment} (hg : Segment.first? (g.text ++ u) = some g) (hc : g.cause? = none) (h : ReadsTo u ts) :
    ReadsTo (g.text ++ u) (g.sketch?.toList ++ ts) := by
  obtain ⟨rfl, hcause⟩ := h
  rw [ReadsTo, Segment.segments_append hg]
  refine ⟨?_, List.forall_mem_cons.2 ⟨hc, hcause⟩⟩
  cases hs : g.sketch? with
  | none => rw [List.filterMap_cons_none hs, Option.toList_none, List.nil_append]
  | some t => rw [List.filterMap_cons_some hs, Option.toList_some, List.singleton_append]

/-- A gap adds nothing. -/
theorem gap (hw : Gap w) (h : ReadsTo u ts) : ReadsTo (w ++ u) ts := by
  induction hw with
  | nil => exact h
  | @blank c w hc _ ih => exact append (g := ⟨.blank, [c]⟩) (Segment.first?_blank hc _) rfl ih
  | @lineComment b w hb _ ih =>
    have hbreak := append (g := ⟨.blank, ['\n']⟩) (Segment.first?_blank (by decide) _) rfl ih
    rw [List.append_assoc]
    exact append (g := ⟨.comment, '/' :: '/' :: b⟩) (Segment.first?_lineComment hb _) rfl hbreak
  | @blockComment b w hb _ ih =>
    rw [List.append_assoc]
    exact append (g := ⟨.comment, '/' :: '*' :: (b ++ Segment.closingMark)⟩) (Segment.first?_blockComment hb _) rfl ih

end ReadsTo

/-- A token that some text begins with. -/
def Token.Readable (t : Token) : Prop :=
  ∃ g u, Segment.first? (g.text ++ u) = some g ∧ t.lexeme = String.ofList g.text ∧ g.sketch? = some t.unplaced

/-- Tokens that are laid out are read to the tokens. -/
theorem readsTo_laidOut (h : Gaps gaps) (hlen : gaps.length = ts.length) (hr : ∀ t ∈ ts, t.Readable) :
    ReadsTo (laidOut ts gaps) (ts.map Token.unplaced) := by
  induction ts generalizing gaps with
  | nil => exact .nil
  | cons t ts ih =>
    obtain ⟨w, gaps, rfl⟩ := List.exists_cons_of_length_eq_add_one hlen
    have hlen : gaps.length = ts.length := Nat.succ.inj hlen
    obtain ⟨g, u, hg, hlexeme, hsketch⟩ := hr t List.mem_cons_self
    obtain ⟨hlocal, hcause⟩ := Segment.isLocal_of_sketch? hsketch
    -- the gap brings up nothing that goes on with the segment of the token
    have hfirst := Segment.first?_congr hlocal (.of_blank (h.head hlen) u) hg
    have hrest := (ih h.tail hlen (List.forall_mem_cons.1 hr).2).gap (h.gap w List.mem_cons_self)
    have key := hrest.append hfirst hcause
    rwa [hsketch, ← List.append_assoc, ← String.toList_ofList (l := g.text), ← hlexeme] at key

/-! ### Programs -/

theorem readable_of_mem {program : String} {t : Token}
    (h : t ∈ (Lexed.ofProgram program).tokens.filter (! ·.isEnd)) : t.Readable := by
  obtain ⟨h, ht⟩ := List.mem_filter.1 h
  rw [lexed_tokens] at h
  rcases List.mem_append.1 h with h | h
  · obtain ⟨p, hp, htoken⟩ := List.mem_filterMap.1 h
    have hfirst := Segment.first?_eq_some_iff.2 (Located.first_of_mem_ofProgram hp)
    obtain ⟨u, hu⟩ := Segment.prefix_of_first? hfirst
    refine ⟨p.segment, u, by rwa [hu], (Segment.token?_fields htoken).2.1, ?_⟩
    rw [Segment.sketch?_eq, show p.segment.token? _ = some t from htoken, Option.map_some]
  · rw [List.mem_singleton.1 h] at ht
    cases ht

/-- The tokens of a program without their places are those of its segments, and the end of the input. -/
theorem map_unplaced_tokens (program : String) :
    (Lexed.ofProgram program).tokens.map Token.unplaced
      = (Segment.segments program.toList).filterMap Segment.sketch? ++ [Token.endOfInput 1] := by
  have key (t : List Char) (gs : List Segment) (start : Nat) :
      ((Located.sequence start gs).filterMap (·.token? t)).map Token.unplaced = gs.filterMap Segment.sketch? := by
    rw [List.map_filterMap]
    induction gs generalizing start with
    | nil => rfl
    | cons g gs ih =>
      rw [Located.sequence, List.filterMap_cons, List.filterMap_cons, ih, Located.token?, ← Segment.sketch?_eq]
  rw [lexed_tokens, List.map_append, Located.ofProgram, key]
  rfl

/-- A program has its tokens, and then the end of the input. -/
theorem tokens_eq_filter (program : String) :
    (Lexed.ofProgram program).tokens
      = (Lexed.ofProgram program).tokens.filter (! ·.isEnd) ++ [Token.ending program.toList] := by
  have hending : [Token.ending program.toList].filter (! ·.isEnd) = [] := rfl
  rw [lexed_tokens, List.filter_append, hending, List.append_nil, List.filter_eq_self.2]
  intro t ht
  obtain ⟨p, hp, ht⟩ := List.mem_filterMap.1 ht
  rw [(Located.first_of_mem_ofProgram hp).isEnd_eq_false ht]
  rfl

theorem ReadsTo.lexed {program : String} (h : ReadsTo program.toList ts) :
    (Lexed.ofProgram program).errors = [] ∧
      (Lexed.ofProgram program).tokens.map Token.unplaced = ts ++ [Token.endOfInput 1] := by
  obtain ⟨hsketch, hcause⟩ := h
  constructor
  · rw [lexed_errors, List.filterMap_eq_nil_iff]
    intro p hp
    rw [Located.mistake?, hcause p.segment (Located.segment_mem_of_mem_sequence hp), Option.map_none]
  · rw [map_unplaced_tokens, hsketch]

/-- A program whose tokens are laid out with other gaps has no mistakes in its tokens, the same tokens at other places,
and an expression that is printed in the same way, if there is one. -/
theorem reading_laidOut (limit printing : Nat) {program : String} {ts : List Token}
    (hts : (Lexed.ofProgram program).tokens.filter (! ·.isEnd) = ts) {lead : List Char} (hlead : Gap lead)
    {gaps : List (List Char)} (hgaps : Gaps gaps) (hlen : gaps.length = ts.length) :
    let spaced := String.ofList (lead ++ laidOut ts gaps)
    (Lexed.ofProgram spaced).errors = [] ∧
      (∃ ts', (Lexed.ofProgram spaced).tokens = ts' ++ [Token.ending spaced.toList] ∧
        ts'.map Token.unplaced = ts.map Token.unplaced) ∧
      (Parsed.ofProgram limit spaced).tree?.map Expr.render = (Parsed.ofProgram limit program).tree?.map Expr.render ∧
      (Parsed.ofProgram limit spaced).tree?.map (Expr.printed? printing)
        = (Parsed.ofProgram limit program).tree?.map (Expr.printed? printing) := by
  intro spaced
  have hr : ∀ t ∈ ts, t.Readable := by
    rw [← hts]
    exact fun t ht => readable_of_mem ht
  have hreads : ReadsTo spaced.toList (ts.map Token.unplaced) := by
    rw [String.toList_ofList]
    exact (readsTo_laidOut hgaps hlen hr).gap hlead
  obtain ⟨herrors, htokens⟩ := hreads.lexed
  have hsame : (Lexed.ofProgram spaced).tokens.map Token.unplaced
      = (Lexed.ofProgram program).tokens.map Token.unplaced := by
    rw [htokens, tokens_eq_filter program, hts, List.map_append]
    rfl
  rw [tokens_eq_filter spaced, List.map_append] at htokens
  exact ⟨herrors, ⟨_, tokens_eq_filter spaced, List.append_cancel_right htokens⟩,
    ExprReader.map_tree?_congr Expr.render_unplaced hsame limit spaced program,
    ExprReader.map_tree?_congr (Expr.printed?_unplaced printing) hsame limit spaced program⟩

/-- An operator and its operand, with comments around them and in the place of an unexpected character. -/
theorem reading_laidOut_comments :
    let program := "-@null"
    let ts := (Lexed.ofProgram program).tokens.filter (! ·.isEnd)
    let lead := ['/', '*', '*', '/']
    let gaps := [[' ', '/', '*', '/', '*', '/'], ['\t', '/', '/', '(', '\n']]
    let spaced := String.ofList (lead ++ laidOut ts gaps)
    Gap lead ∧ Gaps gaps ∧ gaps.length = ts.length ∧ (Lexed.ofProgram spaced).errors = [] ∧
      (∃ ts', (Lexed.ofProgram spaced).tokens = ts' ++ [Token.ending spaced.toList] ∧
        ts'.map Token.unplaced = ts.map Token.unplaced) ∧
      (Parsed.ofProgram 100 spaced).tree?.map Expr.render = (Parsed.ofProgram 100 program).tree?.map Expr.render ∧
      (Parsed.ofProgram 100 spaced).tree?.map (Expr.printed? 100)
        = (Parsed.ofProgram 100 program).tree?.map (Expr.printed? 100) := by
  intro program ts lead gaps spaced
  have hlead : Gap lead := .blockComment (b := []) (by decide) .nil
  have hgaps : Gaps gaps := by
    have hblock : Gap [' ', '/', '*', '/', '*', '/'] := .blank (by decide) (.blockComment (b := ['/']) (by decide) .nil)
    have hline : Gap ['\t', '/', '/', '(', '\n'] := .blank (by decide) (.lineComment (b := ['(']) (by decide) .nil)
    refine ⟨List.forall_mem_cons.2 ⟨hblock, List.forall_mem_singleton.2 hline⟩, ?_, by decide⟩
    refine List.forall_mem_cons.2 ⟨fun c hc => ?_, List.forall_mem_singleton.2 fun c hc => ?_⟩ <;> cases hc <;> rfl
  have hlen : gaps.length = ts.length := by decide +kernel
  exact ⟨hlead, hgaps, hlen, reading_laidOut 100 100 rfl hlead hgaps hlen⟩

end LoxSyntax
