import LoxSyntax.Proofs.Expr.Assembled
import LoxSyntax.Proofs.Token.Placement

/-!
# Every input has an answer

No program is refused when its tokens are read, and no list of tokens when it is parsed, whatever the tokens are and
wherever they claim to be.  What is wrong goes into the log, and every diagnostic that goes there can be shown: it has a
one-line form and a listing, and its offending text is a part of a line.

* `offending_cases`: the offending text at any span, inside the program or not.
* `reading_and_parsing_answer`: both readers, and their diagnostics.
-/

namespace LoxSyntax

/-! ### Showing diagnostics -/

namespace Diagnostic

/-- A diagnostic that can be shown in every form. -/
structure Shown (d : Diagnostic) : Prop where
  summary : ∃ s, d.summary? = some s
  listing (remark : String) : ∃ s, d.listingWith? remark = some s
  offending : d.offending = "" ∨ ∃ line ∈ Text.lines d.program.toList, d.offending.toList <:+: line

theorem offending_cases (d : Diagnostic) :
    d.offending = "" ∨ ∃ line ∈ Text.lines d.program.toList, d.offending.toList <:+: line := by
  unfold offending
  split
  · exact Or.inl rfl
  · rename_i line hline
    refine Or.inr ⟨line, mem_lines_of_lineAt? hline, ?_⟩
    rw [String.toList_ofList]
    exact (List.drop_suffix _ _).isInfix.trans (List.take_prefix _ _).isInfix

theorem shown_of_named {d : Diagnostic} (h : d.cause.isUnnamed = false) : d.Shown :=
  ⟨Option.isSome_iff_exists.1 ((summary?_isSome_iff d).2 h),
    fun remark => Option.isSome_iff_exists.1 ((listingWith?_isSome_iff d remark).2 h), d.offending_cases⟩

end Diagnostic

/-! ### Reading tokens -/

theorem Located.shown_of_mistake? {program : String} {p : Located} {d : Diagnostic}
    (h : p.mistake? program = some d) : d.Shown := by
  rcases shape_of_mistake? h with ⟨-, hc⟩ | ⟨-, hc⟩ <;> exact Diagnostic.shown_of_named (by rw [hc]; rfl)

/-! ### Both readers -/

/-- Every program is read to its end, one stretch after the other, every number in it has a value, and every list of
tokens is parsed; the diagnostics that are found on the way can all be shown. -/
theorem reading_and_parsing_answer :
    (∀ program : String, ∃ ps r, TokenReader.Reads (TokenReader.ofProgram program) ps r ∧
      (TokenReader.ofProgram program).readAll
        = (.ok (r.begin.addToken .endOfInput .null).tokens.size, r.begin.addToken .endOfInput .null) ∧
      (∀ p ∈ ps, p.start < p.stop ∧ p.stop ≤ program.toList.length ∧
        (p.segment.shape = .number → ∃ x, Decimal.read? p.segment.text = some x)) ∧
      ∀ d ∈ r.errors.toList, d.Shown) ∧
    ∀ (r : ExprReader) (limit : Nat) (tokens : List Token),
      (∃ e r', r.parse limit tokens = (.ok (some e), r') ∧ r'.log = r.log ∧ e.Assembled (ExprReader.body tokens) ∧
        ¬ ExprReader.TooDeep limit tokens) ∨
      ∃ r' d, r.parse limit tokens = (.ok none, r') ∧ r'.log = r.log ++ [d] ∧ d.Shown ∧
        ∃ t ∈ ExprReader.terminated tokens, ∃ reason, d.cause = .malformed t reason ∧
          (ExprReader.TooDeep limit tokens → reason = "Expression too deeply nested.") := by
  constructor
  · intro program
    obtain ⟨r, hr, -, hall⟩ := TokenReader.readAll_spec program
    refine ⟨_, r, hr, hall, ?_, ?_⟩
    · intro p hp
      obtain ⟨-, hlt, hle⟩ := (Located.tiles_ofProgram program).bounds.2 p hp
      refine ⟨hlt, hle, fun hn => ?_⟩
      exact Option.isSome_iff_exists.1 (Segment.read?_isSome (Located.first_of_mem_ofProgram hp) hn)
    · intro d hd
      rw [hr.errors] at hd
      obtain ⟨p, -, hp⟩ := List.mem_filterMap.1 hd
      exact Located.shown_of_mistake? hp
  · intro r limit tokens
    rcases ExprReader.parse_cases limit tokens with ⟨hd, e, h⟩ | ⟨t, ht, reason, hdeep, h⟩
    · obtain ⟨r', hp, hlog⟩ := h r
      exact Or.inl ⟨e, r', hp, hlog, ExprReader.assembled_of_parse hp, hd⟩
    · obtain ⟨r', hp, hlog⟩ := h r
      exact Or.inr ⟨r', _, hp, hlog, Diagnostic.shown_of_named rfl, t, ht, reason, rfl, hdeep⟩

end LoxSyntax
