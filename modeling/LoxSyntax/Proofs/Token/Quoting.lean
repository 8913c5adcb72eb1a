import LoxSyntax.Proofs.Token.Placement

/-!
# How string literals are written

Between its quotes a string literal consists of parts.  A part is a character that is neither the quote nor a backslash,
or a backslash together with the character behind it.  There is only one way to cut what is written into parts, and the
value of the literal is what the parts stand for.  Any text can be written between quotes, with a backslash before every
quote and every backslash.

* `Parts.unique`: what stands between two quotes has one list of parts.
* `Enclosed.exists_parts`: what is read as the value is what the parts stand for.
* `lexed_enclosed`: a program that is one string literal, written in any way.
* `string_literals_exact`: every text can be written and is read back, and every string token is read by its parts.
-/

namespace LoxSyntax

namespace Segment

/-- A part of what stands between two quotes: a character, or a backslash and a character. -/
inductive Part where
  | plain (c : Char)
  | escape (c : Char)
  deriving DecidableEq

namespace Part

/-- How a part is written. -/
def written : Part → List Char
  | plain c => [c]
  | escape c => ['\\', c]

/-- The character that a part stands for: behind a backslash a line feed for `n`, a tab for `t`, and every other
character for itself. -/
def value : Part → Char
  | plain c => c
  | escape c => if c = 'n' then '\n' else if c = 't' then '\t' else c

theorem value_escape (c : Char) : (escape c).value = unescape c := by
  by_cases hn : c = 'n'
  · subst hn
    rfl
  by_cases ht : c = 't'
  · subst ht
    rfl
  · rw [unescape.eq_3 c hn ht]
    simp only [value, hn, ht, if_false]

end Part

/-- The parts of what stands between two quotes `q`: neither the quote nor a backslash stands for itself. -/
structure Parts (q : Char) (w : List Char) (ps : List Part) : Prop where
  written : ps.flatMap Part.written = w
  plain : ∀ c, Part.plain c ∈ ps → c ≠ q ∧ c ≠ '\\'

/-- How a text is written between two quotes `q`. -/
def enclose (q : Char) (s : List Char) : List Char :=
  s.flatMap fun c => if c = q ∨ c = '\\' then ['\\', c] else [c]

variable {q c : Char} {w v : List Char} {p : Part} {ps ps' : List Part}

/-! ### Parts -/

theorem parts_nil (q : Char) : Parts q [] [] := ⟨rfl, by simp⟩

theorem parts_plain (hq : c ≠ q) (hb : c ≠ '\\') (h : Parts q w ps) : Parts q (c :: w) (.plain c :: ps) := by
  refine ⟨congrArg (c :: ·) h.written, fun d hd => ?_⟩
  rcases List.mem_cons.1 hd with hd | hd
  · cases hd
    exact ⟨hq, hb⟩
  · exact h.plain d hd

theorem parts_escape (c : Char) (h : Parts q w ps) : Parts q ('\\' :: c :: w) (.escape c :: ps) := by
  refine ⟨congrArg ('\\' :: c :: ·) h.written, fun d hd => ?_⟩
  rcases List.mem_cons.1 hd with hd | hd
  · cases hd
  · exact h.plain d hd

/-- The first part is known by its first character: it is an escape exactly when this is a backslash. -/
theorem Parts.cons_cases (h : Parts q w (p :: ps)) :
    ∃ w', Parts q w' ps ∧
      ((∃ c, p = .plain c ∧ w = c :: w' ∧ c ≠ q ∧ c ≠ '\\') ∨ ∃ c, p = .escape c ∧ w = '\\' :: c :: w') := by
  refine ⟨ps.flatMap Part.written, ⟨rfl, fun c hc => h.plain c (List.mem_cons_of_mem p hc)⟩, ?_⟩
  have hw := h.written.symm
  cases p with
  | plain c => exact Or.inl ⟨c, rfl, hw, h.plain c List.mem_cons_self⟩
  | escape c => exact Or.inr ⟨c, rfl, hw⟩

/-- What stands between two quotes has one list of parts. -/
theorem Parts.unique (h : Parts q w ps) (h' : Parts q w ps') : ps' = ps := by
  induction ps generalizing w ps' with
  | nil =>
    obtain rfl : [] = w := h.written
    cases ps' with
    | nil => rfl
    | cons p' ps' =>
      obtain ⟨w', -, ⟨c, -, hw, -⟩ | ⟨c, -, hw⟩⟩ := h'.cons_cases <;> cases hw
  | cons p ps ih =>
    obtain ⟨u, hu, hp⟩ := h.cons_cases
    cases ps' with
    | nil =>
      obtain rfl : [] = w := h'.written
      rcases hp with ⟨c, -, hw, -⟩ | ⟨c, -, hw⟩ <;> cases hw
    | cons p' ps' =>
      obtain ⟨u', hu', hp'⟩ := h'.cons_cases
      rcases hp with ⟨c, rfl, rfl, -, hc⟩ | ⟨c, rfl, rfl⟩ <;> rcases hp' with ⟨c', rfl, hw, -, hc'⟩ | ⟨c', rfl, hw⟩
      · obtain ⟨rfl, rfl⟩ := List.cons.inj hw
        rw [ih hu hu']
      · exact absurd (List.cons.inj hw).1 hc
      · exact absurd (List.cons.inj hw).1.symm hc'
      · obtain ⟨rfl, rfl⟩ := List.cons.inj (List.cons.inj hw).2
        rw [ih hu hu']

/-! ### What is read -/

/-- What is read as the value is what the parts stand for. -/
theorem Enclosed.exists_parts (h : Enclosed q w v) : ∃ ps, Parts q w ps ∧ ps.map Part.value = v := by
  induction h with
  | nil => exact ⟨[], parts_nil q, rfl⟩
  | @plain c w v hq hb _ ih =>
    obtain ⟨ps, hps, rfl⟩ := ih
    exact ⟨.plain c :: ps, parts_plain hq hb hps, rfl⟩
  | @escape c w v _ ih =>
    obtain ⟨ps, hps, rfl⟩ := ih
    exact ⟨.escape c :: ps, parts_escape c hps, congrArg (· :: _) (Part.value_escape c)⟩

theorem enclosed_enclose (hq : q ∈ quotes) (s : List Char) : Enclosed q (enclose q s) s := by
  induction s with
  | nil => exact .nil
  | cons c s ih =>
    rw [enclose, List.flatMap_cons]
    split
    · -- neither a quote nor a backslash stands for another character behind a backslash
      rename_i hc
      have hvalue : unescape c = c := by
        simp only [quotes, List.mem_cons, List.not_mem_nil, or_false] at hq
        rcases hc with rfl | rfl
        · rcases hq with rfl | rfl <;> rfl
        · rfl
      have key := Enclosed.escape c ih
      rwa [hvalue] at key
    · rename_i hc
      rw [not_or] at hc
      exact .plain hc.1 hc.2 ih

/-- A string literal that nothing follows is one segment. -/
theorem segments_enclosed (hq : q ∈ quotes) (h : Enclosed q w v) :
    segments (q :: (w ++ [q])) = [⟨.string v, q :: (w ++ [q])⟩] := by
  have hlen : w.length + 1 = (w ++ [q]).length := by rw [List.length_append, List.length_singleton]
  rw [segments_cons, extent_enclosed hq h [], hlen, List.take_length, List.drop_length, segments_nil]

end Segment

/-! ### String tokens -/

open Segment

/-- A program that is one string literal. -/
theorem lexed_enclosed {q : Char} {w v : List Char} (hq : q ∈ quotes) (h : Enclosed q w v) :
    let program := String.ofList (q :: (w ++ [q]))
    (Lexed.ofProgram program).errors = [] ∧
      ∃ line span, (Lexed.ofProgram program).tokens
        = [⟨.string, program, .text (String.ofList v), line, span⟩, Token.ending program.toList] := by
  intro program
  have hlocated : Located.ofProgram program = [⟨0, ⟨.string v, q :: (w ++ [q])⟩⟩] := by
    rw [Located.ofProgram, String.toList_ofList, segments_enclosed hq h]
    rfl
  rw [lexed_errors, lexed_tokens, hlocated]
  exact ⟨rfl, _, _, rfl⟩

theorem exists_enclosed_of_mem_tokens {program : String} {token : Token}
    (h : token ∈ (Lexed.ofProgram program).tokens) (hk : token.kind = .string) :
    ∃ q ∈ quotes, ∃ w v, token.lexeme.toList = q :: (w ++ [q]) ∧ Enclosed q w v ∧
      token.literal = .text (String.ofList v) := by
  rw [lexed_tokens] at h
  rcases List.mem_append.1 h with h | h
  · obtain ⟨p, hp, ht⟩ := List.mem_filterMap.1 h
    have hcases := (Located.first_of_mem_ofProgram hp).token?_cases ht
    obtain ⟨-, q, hq, w, v, htext, henclosed, hliteral⟩ := hcases.resolve_right fun h => h.1 hk
    refine ⟨q, hq, w, v, ?_, henclosed, hliteral⟩
    rw [(token?_fields ht).2.1, String.toList_ofList, htext]
  · rw [List.mem_singleton.1 h] at hk
    cases hk

/-- Every text, written between two quotes, is a program that is read without a mistake as a string literal with this
value.  What stands between the quotes of any string token has one list of parts, and its value is what they stand
for. -/
theorem string_literals_exact :
    (∀ q ∈ quotes, ∀ s : String,
      let program := String.ofList (q :: (enclose q s.toList ++ [q]))
      (Lexed.ofProgram program).errors = [] ∧
        ∃ token ending, (Lexed.ofProgram program).tokens = [token, ending] ∧ token.kind = .string ∧
          token.literal = .text s ∧ token.lexeme = program ∧ ending.isEnd = true) ∧
    ∀ program : String, ∀ token ∈ (Lexed.ofProgram program).tokens, token.kind = .string →
      ∃ q ∈ quotes, ∃ w ps, token.lexeme.toList = q :: (w ++ [q]) ∧ Parts q w ps ∧ (∀ ps', Parts q w ps' → ps' = ps) ∧
        token.literal = .text (String.ofList (ps.map Part.value)) := by
  constructor
  · intro q hq s program
    obtain ⟨herrors, line, span, htokens⟩ := lexed_enclosed hq (enclosed_enclose hq s.toList)
    refine ⟨herrors, _, _, htokens, rfl, ?_, rfl, rfl⟩
    rw [String.ofList_toList]
  · intro program token ht hk
    obtain ⟨q, hq, w, v, hlexeme, henclosed, hliteral⟩ := exists_enclosed_of_mem_tokens ht hk
    obtain ⟨ps, hps, rfl⟩ := henclosed.exists_parts
    exact ⟨q, hq, w, ps, hlexeme, hps, fun ps' => hps.unique, hliteral⟩

/-- A line feed, a backslash and both quotes, written between grave accents. -/
theorem string_literals_exact_marks :
    let program := "\x60\n\\\\\"\\\x60\x60"
    ∃ token ending, (Lexed.ofProgram program).errors = [] ∧ (Lexed.ofProgram program).tokens = [token, ending] ∧
      token.kind = .string ∧ token.literal = .text "\n\\\"\x60" ∧ token.lexeme = program ∧
      ∃ q ∈ quotes, ∃ w ps, token.lexeme.toList = q :: (w ++ [q]) ∧ Parts q w ps ∧ (∀ ps', Parts q w ps' → ps' = ps) ∧
        token.literal = .text (String.ofList (ps.map Part.value)) := by
  intro program
  have hq : '\x60' ∈ quotes := by decide
  have hprogram : String.ofList ('\x60' :: (enclose '\x60' "\n\\\"\x60".toList ++ ['\x60'])) = program := by
    decide +kernel
  have hread := string_literals_exact.1 '\x60' hq "\n\\\"\x60"
  rw [hprogram] at hread
  obtain ⟨herrors, token, ending, htokens, hk, hliteral, hlexeme, -⟩ := hread
  have hmem : token ∈ (Lexed.ofProgram program).tokens := by
    rw [htokens]
    exact List.mem_cons_self
  exact ⟨token, ending, herrors, htokens, hk, hliteral, hlexeme, string_literals_exact.2 program token hmem hk⟩

end LoxSyntax
