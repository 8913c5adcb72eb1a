import LoxSyntax.CommandLine
import LoxSyntax.Proofs.Diagnostic.Report

/-!
# How runs end

A run adds to its log what is wrong with its program, and the log decides how it ends.  With an empty log there is an
expression, which is shown, as are the tokens in its place, unless it is too high to be printed.  With another log the
diagnostics are shown and no expression is left.  A diagnostic without a one-line form, which no program gives rise to,
stops the report before it.

* `Run.ofProgram_cases`: what the log of a run says about its expression.
* `Run.traced_eq`: traces come before what the run shows.
* `Run.ofProgram_ends`: exactly one of three endings, and the exit code.
-/

namespace LoxSyntax

namespace Run

/-! ### The endings of a run -/

/-- The log is not empty and all of it has been shown, and nothing else. -/
structure Reported (run : Run) : Prop where
  log_ne_nil : run.log ≠ []
  ending : run.ending = .reported
  output : run.shown.output = ""
  errors : run.log.Shows run.shown.errors

/-- Nothing is wrong with the program, but its expression was to be printed and is too high. -/
structure TooHigh (limits : Limits) (program : String) (showTokens : Bool) (run : Run) : Prop where
  log_eq_nil : run.log = []
  printed : showTokens = false
  tree : ∃ e, (Parsed.ofProgram limits.parsing program).tree? = some e ∧ limits.printing < e.printingCalls
  ending : run.ending = .tooDeep
  output : run.shown.output = ""
  errors : run.shown.errors = "Error: " ++ Expr.tooDeepToPrint ++ "\n"

/-- Nothing is wrong with the program, and its expression or its tokens have been shown. -/
structure Finished (limits : Limits) (program : String) (showTokens : Bool) (run : Run) : Prop where
  log_eq_nil : run.log = []
  tree : ∃ e, run.ending = .finished e ∧ (Parsed.ofProgram limits.parsing program).tree? = some e ∧
    (showTokens = false → e.printingCalls ≤ limits.printing ∧ run.shown.output = e.render ++ "\n")
  tokens : showTokens = true →
    run.shown.output = String.join ((Lexed.ofProgram program).tokens.map fun t => t.record ++ "\n")
  errors : run.shown.errors = ""

/-- The log holds a diagnostic without a one-line form, and only what is before it has been shown. -/
structure CutShort (run : Run) : Prop where
  ending : run.ending = .unreportable
  output : run.shown.output = ""
  errors : ∃ shown d rest, run.log = shown ++ d :: rest ∧ d.cause.isUnnamed = true ∧ Log.Shows shown run.shown.errors

variable {limits : Limits} {program : String} {showTokens : Bool} {run : Run} {log : Log}

theorem Finished.not_tooHigh (h : Finished limits program showTokens run) :
    ¬ TooHigh limits program showTokens run := by
  intro h'
  obtain ⟨e, he, -⟩ := h.tree
  rw [h'.ending] at he
  cases he

/-- The exit code of a run tells whether it has shown what it was to show. -/
theorem exitCode_of_finished (h : Finished limits program showTokens run) : Session.exitCode run = 0 := by
  obtain ⟨e, he, -⟩ := h.tree
  rw [Session.exitCode, he]
  rfl

/-! ### Runs -/

/-- With an empty log there is an expression, and it is displayed; with another log this is reported. -/
theorem ofProgram_cases (limits : Limits) (program : String) (log : Log) (showTokens : Bool) :
    (∃ e, (Parsed.ofProgram limits.parsing program).tree? = some e ∧
      (ofProgram limits program log showTokens).log = [] ∧
      ofProgram limits program log showTokens = display limits (Lexed.ofProgram program).tokens e showTokens) ∨
    ((ofProgram limits program log showTokens).log ≠ [] ∧
      ofProgram limits program log showTokens = report (ofProgram limits program log showTokens).log) := by
  have hlog := run_log limits program log showTokens
  unfold Parsed.ofProgram at hlog ⊢
  dsimp only at hlog ⊢
  rw [← List.append_assoc] at hlog
  rcases ExprReader.ofTokens_cases limits.parsing (Lexed.ofProgram program).tokens with ⟨e, he⟩ | ⟨t, reason, he⟩
  · rw [he, List.append_nil] at hlog
    rcases hfound : log ++ (Lexed.ofProgram program).errors with _ | ⟨d, found⟩
    · left
      refine ⟨e, by rw [he], hlog.trans hfound, ?_⟩
      unfold ofProgram
      simp only [he, hfound, List.append_nil]
    · right
      rw [hlog, hfound]
      refine ⟨List.cons_ne_nil _ _, ?_⟩
      unfold ofProgram
      simp only [he, hfound, List.append_nil]
  · -- what cannot be parsed is in the log
    right
    rw [hlog, he]
    refine ⟨List.append_ne_nil_of_right_ne_nil _ (List.cons_ne_nil _ _), ?_⟩
    unfold ofProgram
    simp only [he]

theorem finished_or_tooHigh_of_display {e : Expr Span} (he : (Parsed.ofProgram limits.parsing program).tree? = some e)
    (hrun : run = display limits (Lexed.ofProgram program).tokens e showTokens) :
    Finished limits program showTokens run ∨ TooHigh limits program showTokens run := by
  unfold display at hrun
  cases showTokens with
  | true =>
    subst hrun
    exact Or.inl ⟨rfl, ⟨e, rfl, he, nofun⟩, fun _ => rfl, rfl⟩
  | false =>
    rw [if_neg Bool.false_ne_true] at hrun
    split at hrun <;> rename_i hprinted <;> subst hrun
    · obtain ⟨hheight, rfl⟩ := Expr.printed?_eq_some_iff.1 hprinted
      exact Or.inl ⟨rfl, ⟨e, rfl, he, fun _ => ⟨hheight, rfl⟩⟩, nofun, rfl⟩
    · have hheight : limits.printing < e.printingCalls := by
        unfold Expr.printed? at hprinted
        split at hprinted
        · cases hprinted
        · omega
      exact Or.inr ⟨rfl, rfl, ⟨e, he, hheight⟩, rfl, rfl, rfl⟩

theorem reported_of_report (hne : log ≠ []) (h : ∀ d ∈ log, d.cause.isUnnamed = false) : Reported (report log) := by
  refine ⟨hne, ?_, rfl, Log.shows_report h⟩
  show (if log.report.2 then Ending.reported else .unreportable) = .reported
  rw [if_pos (Log.report_snd_of_all h)]

theorem cutShort_of_report (h : ∃ d ∈ log, d.cause.isUnnamed = true) : CutShort (report log) := by
  obtain ⟨hcomplete, hshown⟩ := Log.report_of_unnamed h
  refine ⟨?_, rfl, hshown⟩
  show (if log.report.2 then Ending.reported else .unreportable) = .unreportable
  rw [if_neg (by rw [hcomplete]; exact Bool.false_ne_true)]

/-- When the diagnostics that a run begins with can be shown, it has one of three endings. -/
theorem ofProgram_of_named (h : ∀ d ∈ log, d.cause.isUnnamed = false) (limits : Limits) (program : String)
    (showTokens : Bool) :
    let run := ofProgram limits program log showTokens
    Reported run ∨ TooHigh limits program showTokens run ∨ Finished limits program showTokens run := by
  intro run
  rcases ofProgram_cases limits program log showTokens with ⟨e, he, -, hrun⟩ | ⟨hne, hrun⟩
  · exact Or.inr (finished_or_tooHigh_of_display he hrun).symm
  · left
    show Reported (ofProgram limits program log showTokens)
    rw [hrun]
    refine reported_of_report hne fun d hd => ?_
    rw [run_log] at hd
    exact (List.mem_append.1 hd).elim (h d) isUnnamed_of_mem_errors

/-- A diagnostic that cannot be shown cuts the report of a run short. -/
theorem ofProgram_of_unnamed (h : ∃ d ∈ log, d.cause.isUnnamed = true) (limits : Limits) (program : String)
    (showTokens : Bool) :
    CutShort (ofProgram limits program log showTokens) := by
  obtain ⟨d, hd, hun⟩ := h
  have hmem : d ∈ (ofProgram limits program log showTokens).log := by
    rw [run_log]
    exact List.mem_append_left _ hd
  rcases ofProgram_cases limits program log showTokens with ⟨-, -, hnil, -⟩ | ⟨-, hrun⟩
  · rw [hnil] at hmem
    cases hmem
  · rw [hrun]
    exact cutShort_of_report ⟨d, hmem, hun⟩

theorem ends_once (h : Reported run ∨ TooHigh limits program showTokens run ∨ Finished limits program showTokens run) :
    (Reported run ∧ ¬ TooHigh limits program showTokens run ∧ ¬ Finished limits program showTokens run) ∨
    (¬ Reported run ∧ TooHigh limits program showTokens run ∧ ¬ Finished limits program showTokens run) ∨
    (¬ Reported run ∧ ¬ TooHigh limits program showTokens run ∧ Finished limits program showTokens run) := by
  rcases h with h | h | h
  · exact Or.inl ⟨h, fun h' => h.log_ne_nil h'.log_eq_nil, fun h' => h.log_ne_nil h'.log_eq_nil⟩
  · exact Or.inr (Or.inl ⟨fun h' => h'.log_ne_nil h.log_eq_nil, h, fun h' => h'.not_tooHigh h⟩)
  · exact Or.inr (Or.inr ⟨fun h' => h'.log_ne_nil h.log_eq_nil, h.not_tooHigh, h⟩)

theorem finished_of_tree?
    (h : Reported run ∨ TooHigh limits program showTokens run ∨ Finished limits program showTokens run)
    (ht : run.ending.tree?.isSome = true) : Finished limits program showTokens run := by
  rcases h with h | h | h
  · rw [h.ending] at ht
    cases ht
  · rw [h.ending] at ht
    cases ht
  · exact h

theorem exitCode_eq_zero_iff
    (h : Reported run ∨ TooHigh limits program showTokens run ∨ Finished limits program showTokens run) :
    Session.exitCode run = 0 ↔ Finished limits program showTokens run := by
  refine ⟨fun hcode => finished_of_tree? h ?_, exitCode_of_finished⟩
  unfold Session.exitCode at hcode
  split at hcode
  · assumption
  · cases hcode

theorem exitCode_eq_dataError_iff
    (h : Reported run ∨ TooHigh limits program showTokens run ∨ Finished limits program showTokens run) :
    Session.exitCode run = Session.dataError ↔ ¬ Finished limits program showTokens run := by
  rw [← exitCode_eq_zero_iff h, Session.exitCode]
  split <;> decide

/-- No run shows both an output and errors. -/
theorem output_or_errors
    (h : Reported run ∨ TooHigh limits program showTokens run ∨ Finished limits program showTokens run) :
    run.shown.output = "" ∨ run.shown.errors = "" := by
  rcases h with h | h | h
  · exact Or.inl h.output
  · exact Or.inl h.output
  · exact Or.inr h.errors

/-- A run that comes back without an expression says why. -/
theorem errors_ne_empty
    (h : Reported run ∨ TooHigh limits program showTokens run ∨ Finished limits program showTokens run)
    (ht : run.ending.tree? = none) : run.shown.errors ≠ "" := by
  rcases h with h | h | h
  · exact h.errors.ne_empty h.log_ne_nil
  · rw [h.errors]
    decide
  · obtain ⟨e, he, -⟩ := h.tree
    rw [he] at ht
    cases ht

theorem log_ne_nil_of_tree? (log : Log) (showTokens : Bool)
    (h : (Parsed.ofProgram limits.parsing program).tree? = none) :
    (ofProgram limits program log showTokens).log ≠ [] := by
  rcases ofProgram_cases limits program log showTokens with ⟨e, he, -⟩ | ⟨hne, -⟩
  · rw [h] at he
    cases he
  · exact hne

/-- Traces go to the errors, in front of what the run shows. -/
theorem traced_eq {tracer : Tracer} (h : (traced limits tracer program log showTokens).2 = some run) :
    run = ofProgram limits program log showTokens ∧
      ∃ trace : String, (traced limits tracer program log showTokens).1 = { errors := trace } ++ run.shown := by
  unfold traced at h ⊢
  dsimp only at h ⊢
  split at h
  · cases h
  · rename_i first _
    split at h
    · cases h
    · rename_i second _
      cases h
      exact ⟨rfl, first ++ second, rfl⟩

end Run

namespace CommandLine

/-- A command with one script runs it with an empty log. -/
theorem respond_script {limits : Limits} {arguments : List String} {request : Request} {path : String}
    {bytes : ByteArray} {program : String} {read : String → Except ReadFault ByteArray}
    (harguments : Request.ofArguments arguments = .ok request) (hhelp : request.help = false)
    (hdebug : request.debug = false) (hscripts : request.scripts = [path])
    (hread : read (normalPath path) = .ok bytes) (hdecode : decode bytes = .ok program) (tracer : Run.Tracer)
    (input : String) :
    respond limits tracer arguments read input
      = .ok ⟨(Run.ofProgram limits program [] request.tokens).shown,
          some (Session.exitCode (Run.ofProgram limits program [] request.tokens))⟩ := by
  unfold respond
  simp only [harguments, hhelp, hscripts, hread, Bool.false_eq_true, if_false]
  show (decode bytes >>= fun program => _) = _
  rw [hdecode]
  show Except.ok (script limits tracer request program) = _
  rw [script, hdebug]
  rfl

end CommandLine

namespace Run

/-- A run adds to its log what is wrong with its program, which is never nothing when there is no expression.  If what
the log held before can be shown, the run has exactly one of three endings; if not, its report is cut short.  The exit
code of a command with one script, and without traces, tells whether this run has shown an expression or its tokens. -/
theorem ofProgram_ends (limits : Limits) (program : String) (log : Log) (showTokens : Bool) :
    let run := ofProgram limits program log showTokens
    (∃ mistakes, run.log = log ++ (Lexed.ofProgram program).errors ++ mistakes ∧
      mistakes = (Parsed.ofTokens limits.parsing program (Lexed.ofProgram program).tokens).errors ∧
      (mistakes = [] ∨ ∃ span token reason, mistakes = [⟨program, span, .malformed token reason⟩])) ∧
    ((Parsed.ofProgram limits.parsing program).tree? = none → run.log ≠ []) ∧
    (Lexed.ofProgram program).tokens.getLast? = some (Token.ending program.toList) ∧
    ((∀ d ∈ log, d.cause.isUnnamed = false) →
      ((Reported run ∧ ¬ TooHigh limits program showTokens run ∧ ¬ Finished limits program showTokens run) ∨
        (¬ Reported run ∧ TooHigh limits program showTokens run ∧ ¬ Finished limits program showTokens run) ∨
        (¬ Reported run ∧ ¬ TooHigh limits program showTokens run ∧ Finished limits program showTokens run)) ∧
      (run.ending.tree? = none → run.shown.errors ≠ "")) ∧
    ((∃ d ∈ log, d.cause.isUnnamed = true) → CutShort run) ∧
    (run.shown.output = "" ∨ run.shown.errors = "") ∧
    ∀ (tracer : Tracer) (arguments : List String) (request : CommandLine.Request) (path input : String)
      (bytes : ByteArray) (read : String → Except CommandLine.ReadFault ByteArray),
      CommandLine.Request.ofArguments arguments = .ok request → request.help = false → request.debug = false →
      request.tokens = showTokens → request.scripts = [path] → read (CommandLine.normalPath path) = .ok bytes →
      CommandLine.decode bytes = .ok program →
      ∃ code, CommandLine.respond limits tracer arguments read input
          = .ok ⟨(ofProgram limits program [] showTokens).shown, some code⟩ ∧
        (code = 0 ↔ Finished limits program showTokens (ofProgram limits program [] showTokens)) ∧
        (code = 65 ↔ ¬ Finished limits program showTokens (ofProgram limits program [] showTokens)) := by
  intro run
  refine ⟨⟨_, ?_, rfl, ?_⟩, log_ne_nil_of_tree? log showTokens, ?_, ?_, ?_, ?_, ?_⟩
  · rw [List.append_assoc]
    exact run_log limits program log showTokens
  · rcases ExprReader.ofTokens_cases limits.parsing (Lexed.ofProgram program).tokens with
      ⟨e, he⟩ | ⟨t, reason, he⟩
    · exact Or.inl (by rw [he])
    · exact Or.inr ⟨_, t, reason, by rw [he]⟩
  · rw [lexed_tokens, List.getLast?_concat]
  · intro hnamed
    have hends := ofProgram_of_named hnamed limits program showTokens
    exact ⟨ends_once hends, errors_ne_empty hends⟩
  · intro hunnamed
    exact ofProgram_of_unnamed hunnamed limits program showTokens
  · by_cases hunnamed : ∃ d ∈ log, d.cause.isUnnamed = true
    · exact Or.inl (ofProgram_of_unnamed hunnamed limits program showTokens).output
    · refine output_or_errors (ofProgram_of_named ?_ limits program showTokens)
      intro d hd
      rw [← Bool.not_eq_true]
      exact fun h => hunnamed ⟨d, hd, h⟩
  · intro tracer arguments request path input bytes read harguments hhelp hdebug htokens hscripts hread hdecode
    have hends := ofProgram_of_named (List.forall_mem_nil _) limits program showTokens
    refine ⟨_, ?_, exitCode_eq_zero_iff hends, exitCode_eq_dataError_iff hends⟩
    rw [← htokens]
    exact CommandLine.respond_script harguments hhelp hdebug hscripts hread hdecode tracer input

/-- With a diagnostic that cannot be shown in its log, a run has none of the three endings. -/
theorem ofProgram_ends_unspecified :
    let limits : Limits := ⟨100, 100⟩
    let run := ofProgram limits "1" [⟨"1", ⟨⟨1, 0⟩, ⟨1, 1⟩⟩, .unspecified⟩] false
    run.ending = .unreportable ∧ run.shown.errors = "" ∧
      ¬ Reported run ∧ ¬ TooHigh limits "1" false run ∧ ¬ Finished limits "1" false run := by
  intro limits run
  have hcut : CutShort run := ofProgram_of_unnamed ⟨_, List.mem_singleton_self _, rfl⟩ limits "1" false
  refine ⟨hcut.ending, ?_, fun h => ?_, fun h => ?_, fun h => ?_⟩
  · rcases ofProgram_cases limits "1" [⟨"1", ⟨⟨1, 0⟩, ⟨1, 1⟩⟩, .unspecified⟩] false with
      ⟨e, -, hnil, -⟩ | ⟨-, hrun⟩
    · rw [run_log] at hnil
      cases hnil
    · show (ofProgram limits _ _ _).shown.errors = ""
      rw [hrun, run_log]
      rfl
  · have := hcut.ending.symm.trans h.ending
    cases this
  · have := hcut.ending.symm.trans h.ending
    cases this
  · obtain ⟨e, he, -⟩ := h.tree
    have := hcut.ending.symm.trans he
    cases this

end Run

end LoxSyntax
