import LoxSyntax.Proofs.Diagnostic.Offending

/-!
# Reports

A report has the one-line forms of the diagnostics of a log, each with a line feed behind it.  The one-line form of a
mistake at a token has the lexeme of the token in it as it stands, so that it goes on to another line when the token
does, which only a string literal can.  All else that is taken from a program is quoted.  Since at most the last mistake
in a program is at a token, the report has a line for each mistake unless the last one is at such a string literal.

* `Log.shows_report`, `Log.report_of_unnamed`: reports of logs whose diagnostics can be shown, and of others.
* `tells_of_mem_errors`: what is said of the mistakes in a program.
* `Diagnostic.shownAs_of_mem_errors`: the one-line form of a mistake, and where it has line feeds.
* `report_exact`: the lines of the report, and `report_exact_split`, a mistake on two lines of it.
-/

namespace LoxSyntax

/-! ### Reports -/

namespace Log

/-- The text consists of the one-line forms of the diagnostics, each with a line feed behind it. -/
def Shows (log : Log) (text : String) : Prop :=
  ∃ forms : List String, log.map Diagnostic.summary? = forms.map some ∧ text = String.join (forms.map (· ++ "\n"))

theorem shows_cons {d : Diagnostic} {log : Log} {form text : String} (hd : d.summary? = some form)
    (h : log.Shows text) : Shows (d :: log) (form ++ "\n" ++ text) := by
  obtain ⟨forms, hforms, htext⟩ := h
  refine ⟨form :: forms, ?_, ?_⟩
  · rw [List.map_cons, List.map_cons, hd, hforms]
  · rw [List.map_cons, String.join_cons, htext]

theorem Shows.ne_empty {log : Log} {text : String} (h : log.Shows text) (hne : log ≠ []) : text ≠ "" := by
  obtain ⟨forms, hforms, rfl⟩ := h
  cases forms with
  | nil => exact absurd (List.map_eq_nil_iff.1 hforms) hne
  | cons form forms =>
    intro he
    have hlen := congrArg String.length he
    simp [String.join_cons, String.length_append] at hlen

theorem shows_report {log : Log} (h : ∀ d ∈ log, d.cause.isUnnamed = false) : log.Shows log.report.1 := by
  induction log with
  | nil => exact ⟨[], rfl, rfl⟩
  | cons d log ih =>
    obtain ⟨hd, hlog⟩ := List.forall_mem_cons.1 h
    obtain ⟨form, hform⟩ := Option.isSome_iff_exists.1 ((Diagnostic.summary?_isSome_iff d).2 hd)
    simp only [report, hform]
    exact shows_cons hform (ih hlog)

theorem report_of_unnamed {log : Log} (h : ∃ d ∈ log, d.cause.isUnnamed = true) :
    log.report.2 = false ∧ ∃ shown d rest, log = shown ++ d :: rest ∧ d.cause.isUnnamed = true ∧
      Shows shown log.report.1 := by
  induction log with
  | nil => simp at h
  | cons d log ih =>
    cases hd : d.cause.isUnnamed with
    | true =>
      have hnone : d.summary? = none := by
        rw [← Option.not_isSome_iff_eq_none, Diagnostic.summary?_isSome_iff, hd]
        simp
      simp only [report, hnone]
      exact ⟨trivial, [], d, log, rfl, hd, [], rfl, rfl⟩
    | false =>
      obtain ⟨form, hform⟩ := Option.isSome_iff_exists.1 ((Diagnostic.summary?_isSome_iff d).2 hd)
      have hrest : ∃ e ∈ log, e.cause.isUnnamed = true := by
        obtain ⟨e, he, hun⟩ := h
        rcases List.mem_cons.1 he with rfl | he
        · rw [hd] at hun
          cases hun
        · exact ⟨e, he, hun⟩
      obtain ⟨hcomplete, shown, u, rest, hlog, hu, hshown⟩ := ih hrest
      simp only [report, hform]
      exact ⟨hcomplete, d :: shown, u, rest, by rw [hlog, List.cons_append], hu, shows_cons hform hshown⟩

end Log

/-! ### One-line forms -/

namespace Diagnostic

/-- Where a mistake in a program is said to be, and what is said to be wrong. -/
inductive Tells (d : Diagnostic) : String → String → Prop
  | unexpected (h : d.cause = .unexpectedCharacter) : Tells d "" ("Unexpected character: " ++ Text.quote d.offending)
  | unterminated (h : d.cause = .unterminatedString) : Tells d "" "Unterminated string."
  | atEnd {token : Token} {why : Rejection} (h : d.cause = .malformed token why.message) (hend : token.isEnd = true) :
      Tells d " at end" why.message
  | atToken {token : Token} {why : Rejection} (h : d.cause = .malformed token why.message)
      (hend : token.isEnd = false) : Tells d (" at '" ++ token.lexeme ++ "'") why.message

/-- A mistake at a string token that goes on to another line. -/
def AtSplitString (d : Diagnostic) : Prop :=
  ∃ token reason, d.cause = .malformed token reason ∧ token.kind = .string ∧ d.span.start.line ≠ d.span.stop.line

/-- The one-line form of a mistake in a program.  It has as many line feeds in it as the token that it names. -/
structure ShownAs (d : Diagnostic) (form : String) : Prop where
  parts : ∃ place message, d.Tells place message ∧
    form = "[line " ++ Decimal.showInt d.span.stop.line ++ "] Error" ++ place ++ ": " ++ message
  newline_mem_iff : '\n' ∈ form.toList ↔ d.AtSplitString
  line_eq (h : d.cause ≠ .unterminatedString) : d.span.stop.line = d.span.start.line + form.toList.count '\n'

variable {d : Diagnostic} {place message : String}

theorem Tells.newline_not_mem (h : d.Tells place message) : '\n' ∉ message.toList := by
  have hreason (why : Rejection) : '\n' ∉ why.message.toList := by
    cases why <;> decide
  cases h with
  | unexpected =>
    have hquote : '\n' ∉ (Text.quote d.offending).toList := by
      rw [Text.quote, String.toList_ofList]
      exact Text.newline_not_mem_quoted _
    rw [String.toList_append, List.mem_append, not_or]
    exact ⟨by decide, hquote⟩
  | unterminated => decide
  | atEnd => exact hreason _
  | atToken => exact hreason _

/-- All line feeds of a one-line form are in its place. -/
theorem count_form (n : Int) (place : String) (h : '\n' ∉ message.toList) :
    ("[line " ++ Decimal.showInt n ++ "] Error" ++ place ++ ": " ++ message).toList.count '\n'
      = place.toList.count '\n' := by
  have hopening : "[line ".toList.count '\n' = 0 := by decide
  have herror : "] Error".toList.count '\n' = 0 := by decide
  have hcolon : ": ".toList.count '\n' = 0 := by decide
  have hnumber : (Decimal.showInt n).toList.count '\n' = 0 := by
    rw [Decimal.showInt, String.toList_ofList]
    exact List.count_eq_zero.2 (Decimal.newline_not_mem_integerChars n)
  simp only [String.toList_append, List.count_append, hopening, herror, hcolon, hnumber, List.count_eq_zero.2 h,
    Nat.zero_add, Nat.add_zero]

end Diagnostic

/-! ### The forms of the mistakes in a program -/

theorem cause_ne_malformed {program : String} {d : Diagnostic} (h : d ∈ (Lexed.ofProgram program).errors)
    (token : Token) (reason : String) : d.cause ≠ .malformed token reason := by
  obtain ⟨_, _, -, -, hd⟩ := exists_liesAt_of_mem_errors h
  rcases hd.cause_or with hc | hc <;> rw [hc] <;> exact nofun

/-- What is said of a mistake in a program. -/
theorem tells_of_mem_errors {limit : Nat} {program : String} {d : Diagnostic}
    (h : d ∈ (Parsed.ofProgram limit program).errors) :
    d.line = d.span.stop.line ∧ ∃ message, d.message? = some message ∧ d.Tells d.cause.place message := by
  rcases mem_errors_cases h with h | ⟨token, ht, why, rfl⟩
  · obtain ⟨_, _, -, -, hd⟩ := exists_liesAt_of_mem_errors h
    refine ⟨hd.line, ?_⟩
    rcases hd.cause_or with hc | hc
    · exact ⟨_, by rw [Diagnostic.message?, hc], by rw [hc]; exact .unexpected hc⟩
    · exact ⟨_, by rw [Diagnostic.message?, hc], by rw [hc]; exact .unterminated hc⟩
  · refine ⟨(errorSpan_of_mem ht).2, why.message, rfl, ?_⟩
    rw [Cause.place]
    cases hend : token.isEnd with
    | true => exact .atEnd rfl hend
    | false => exact .atToken rfl hend

/-- The place that is named for a token has the line feeds of its lexeme. -/
theorem count_place {program : String} {token : Token} (ht : token ∈ (Lexed.ofProgram program).tokens)
    (reason : String) :
    (Cause.malformed token reason).place.toList.count '\n' = token.lexeme.toList.count '\n' := by
  rw [Cause.place]
  split
  · -- the end of the input has no lexeme to name, and none that could have a line feed
    rename_i hend
    have hk : token.kind ≠ .string := by
      intro hk
      rw [Token.isEnd, hk] at hend
      cases hend
    have hlexeme := (holds_of_mem_tokens ht).line_eq_iff.1 ((inOrder_lexed program).line_eq token ht hk)
    rw [List.count_eq_zero.2 hlexeme]
    decide
  · have hopening : " at '".toList.count '\n' = 0 := by decide
    have hclosing : "'".toList.count '\n' = 0 := by decide
    rw [String.toList_append, String.toList_append, List.count_append, List.count_append, hopening, hclosing,
      Nat.zero_add, Nat.add_zero]

/-- The place that is named for a mistake in a program has a line feed for each line that its token goes on to. -/
theorem newline_mem_place {limit : Nat} {program : String} {d : Diagnostic}
    (h : d ∈ (Parsed.ofProgram limit program).errors) :
    ('\n' ∈ d.cause.place.toList ↔ d.AtSplitString) ∧
      (d.cause ≠ .unterminatedString → d.span.stop.line = d.span.start.line + d.cause.place.toList.count '\n') := by
  obtain ⟨-, u, hholds, -, hstring⟩ := holds_of_mem_errors h
  rcases mem_errors_cases h with h | ⟨token, ht, why, rfl⟩
  · obtain ⟨_, _, -, -, hd⟩ := exists_liesAt_of_mem_errors h
    have hplace : d.cause.place = "" := by
      rcases hd.cause_or with hc | hc <;> rw [hc] <;> rfl
    rw [hplace]
    refine ⟨iff_of_false (by decide) ?_, fun hne => ?_⟩
    · rintro ⟨token, reason, hc, -⟩
      exact cause_ne_malformed h token reason hc
    · have hu : '\n' ∉ u := by
        intro hmem
        rcases hstring hmem with hc | ⟨token, reason, hc, -⟩
        · exact hne hc
        · exact cause_ne_malformed h token reason hc
      rw [hholds.line_eq, List.count_eq_zero.2 hu]
      rfl
  · have hlexeme := holds_of_mem_tokens ht
    have hcount := count_place ht why.message
    refine ⟨?_, fun _ => hcount.symm ▸ hlexeme.line_eq⟩
    rw [← List.count_pos_iff, hcount, List.count_pos_iff]
    constructor
    · intro hmem
      have hne : token.span.start.line ≠ token.span.stop.line := fun he => hlexeme.line_eq_iff.1 he hmem
      refine ⟨token, why.message, rfl, ?_, hne⟩
      by_contra hk
      exact hne ((inOrder_lexed program).line_eq token ht hk)
    · rintro ⟨-, -, -, -, hne⟩
      by_contra hmem
      exact hne (hlexeme.line_eq_iff.2 hmem)

theorem Diagnostic.shownAs_of_mem_errors {limit : Nat} {program form : String} {d : Diagnostic}
    (h : d ∈ (Parsed.ofProgram limit program).errors) (hform : d.summary? = some form) : d.ShownAs form := by
  obtain ⟨hline, message, hmessage, htells⟩ := tells_of_mem_errors h
  obtain ⟨hmem, hstop⟩ := newline_mem_place h
  rw [summary?, hmessage, Option.map_some, hline, Option.some.injEq] at hform
  subst hform
  have hcount := count_form d.span.stop.line d.cause.place htells.newline_not_mem
  refine ⟨⟨_, message, htells, rfl⟩, ?_, fun hne => ?_⟩
  · rw [← hmem, ← List.count_pos_iff, hcount, List.count_pos_iff]
  · rw [hcount]
    exact hstop hne

/-- Only the last mistake in a program can be at a token. -/
theorem not_atSplitString_of_mem_dropLast {limit : Nat} {program : String} {d : Diagnostic}
    (h : d ∈ (Parsed.ofProgram limit program).errors.dropLast) : ¬ d.AtSplitString := by
  have hlexed : d ∈ (Lexed.ofProgram program).errors := by
    unfold Parsed.ofProgram at h
    dsimp only at h
    -- a parse adds one mistake at most, behind those of the tokens
    rcases ExprReader.ofTokens_cases limit (Lexed.ofProgram program).tokens with ⟨e, he⟩ | ⟨t, reason, he⟩
    · rw [he, List.append_nil] at h
      exact List.dropLast_subset _ h
    · rwa [he, List.dropLast_concat] at h
  rintro ⟨token, reason, hc, -⟩
  exact cause_ne_malformed hlexed token reason hc

/-! ### The lines of a report -/

theorem toList_join_newline (forms : List String) :
    (String.join (forms.map (· ++ "\n"))).toList = Text.terminate (forms.map String.toList) := by
  rw [String.toList_join, List.flatMap_map, Text.terminate, List.flatMap_map]
  exact List.flatMap_congr fun form _ => String.toList_append

private theorem forall_mem_congr {α β : Type} {p : α → Prop} {q : β → Prop} {as : List α} {bs : List β}
    (h : List.Forall₂ (fun a b => p a ↔ q b) as bs) : (∀ a ∈ as, p a) ↔ ∀ b ∈ bs, q b := by
  induction h with
  | nil => simp
  | cons h _ ih => rw [List.forall_mem_cons, List.forall_mem_cons, h, ih]

/-- The report of the mistakes in a program has the one-line form of each of them, with a line feed behind it.  Only the
last one can have line feeds in it, when it names a string token that goes on to another line.  The lines of the report
are the one-line forms, and there are as many as mistakes, exactly when it does not. -/
theorem report_exact (limit : Nat) (program : String) :
    let log := (Parsed.ofProgram limit program).errors
    ∃ forms : List String, log.map Diagnostic.summary? = forms.map some ∧ List.Forall₂ Diagnostic.ShownAs log forms ∧
      log.report = (String.join (forms.map (· ++ "\n")), true) ∧
      (∀ d ∈ log.dropLast, ¬ d.AtSplitString) ∧
      (Text.lines log.report.1.toList = forms.map String.toList ++ [[]] ↔ ∀ d ∈ log, ¬ d.AtSplitString) ∧
      (log.report.1.toList.count '\n' = log.length ↔ ∀ d ∈ log, ¬ d.AtSplitString) := by
  intro log
  obtain ⟨forms, hforms, htext⟩ := Log.shows_report fun d (hd : d ∈ log) => isUnnamed_of_mem_errors hd
  have hcomplete := Log.report_snd_of_all fun d (hd : d ∈ log) => isUnnamed_of_mem_errors hd
  have hshown : List.Forall₂ Diagnostic.ShownAs log forms := by
    have hsummaries : List.Forall₂ (fun d form => d ∈ log ∧ d.summary? = some form) log forms := by
      rw [← List.forall₂_eq_eq_eq, List.forall₂_map_left_iff, List.forall₂_map_right_iff] at hforms
      exact (List.forall₂_and_left _ _).2 ⟨fun _ hd => hd, hforms⟩
    exact hsummaries.imp fun _ _ hd => Diagnostic.shownAs_of_mem_errors hd.1 hd.2
  have hsplit : (∀ l ∈ forms.map String.toList, '\n' ∉ l) ↔ ∀ d ∈ log, ¬ d.AtSplitString := by
    have hcongr : List.Forall₂ (fun d form => ¬ d.AtSplitString ↔ '\n' ∉ form.toList) log forms :=
      hshown.imp fun _ _ hd => not_congr hd.newline_mem_iff.symm
    rw [List.forall_mem_map]
    exact (forall_mem_congr hcongr).symm
  have hlist : log.report.1.toList = Text.terminate (forms.map String.toList) := by
    rw [htext, toList_join_newline]
  have hlength : log.length = (forms.map String.toList).length := by
    rw [List.length_map]
    exact hshown.length_eq
  refine ⟨forms, hforms, hshown, Prod.ext htext hcomplete, fun d hd => not_atSplitString_of_mem_dropLast hd, ?_, ?_⟩
  · rw [hlist, Text.lines_terminate_iff, hsplit]
  · rw [hlist, hlength, Text.count_terminate_eq_length, hsplit]

/-- A string token on two lines is named in a report of one mistake, which has two lines then. -/
theorem report_exact_split :
    let log := (Parsed.ofProgram 100 "1 \"a\nb\"").errors
    log.length = 1 ∧ log.report = ("[line 2] Error at '\"a\nb\"': Expect end of expression.\n", true) ∧
      log.report.1.toList.count '\n' = 2 := by
  decide +kernel

end LoxSyntax
