import LoxSyntax.Proofs.Run

/-!
# Sessions

A session takes the lines of its input one after the other and runs each with an empty log.  No run brings it to an
end, since what is wrong with a program can always be shown, so it ends with its input.  What it shows consists of what
it shows for each line, and whole lines in front of an input can be split off.

* `Ends`: a session as it goes from line to line, which a run could bring to an end.
* `ends_iff`: it ends with its input, and shows what `ofInput` says.
* `exists_ofInput_append`: whole lines in front of more text.
* `tracedLines_eq`: traces change the errors of a session only.
* `sessions_compose`: what sessions show, and their exit code.
-/

namespace LoxSyntax

namespace Session

open Text (FirstLine)

/-- A session on a text, with what it shows and its exit code.  At the end of the text it shows the mark and a line
feed.  Before that it shows the mark, takes a line and runs it with an empty log; a report that is cut short ends the
session there, without an exit code. -/
inductive Ends (limits : Limits) (showTokens : Bool) : (text : List Char) → Shown → (code : Option Nat) → Prop
  | atEnd : Ends limits showTokens [] { output := "> \n" } (some 0)
  | line {line rest : List Char} {run : Run} {shown : Shown} {code : Option Nat} (hline : FirstLine line rest)
      (hrun : run = Run.ofProgram limits (String.ofList line) [] showTokens) (hending : run.ending ≠ .unreportable)
      (hrest : Ends limits showTokens rest shown code) :
      Ends limits showTokens (line ++ rest) ({ output := "> " } ++ run.shown ++ shown) code
  | cut {line rest : List Char} {run : Run} (hline : FirstLine line rest)
      (hrun : run = Run.ofProgram limits (String.ofList line) [] showTokens) (hending : run.ending = .unreportable) :
      Ends limits showTokens (line ++ rest) ({ output := "> " } ++ run.shown) none

variable {limits : Limits} {line rest text s : List Char} {shown : Shown} {code : Option Nat} {n : Nat}
  {showTokens : Bool}

/-- A run that begins with an empty log comes back. -/
theorem ending_ne_unreportable (limits : Limits) (program : String) (showTokens : Bool) :
    (Run.ofProgram limits program [] showTokens).ending ≠ .unreportable := by
  rcases Run.ofProgram_of_named (List.forall_mem_nil _) limits program showTokens with h | h | h
  · rw [h.ending]
    exact nofun
  · rw [h.ending]
    exact nofun
  · obtain ⟨e, he, -⟩ := h.tree
    rw [he]
    exact nofun

theorem ofInput_nil (limits : Limits) (showTokens : Bool) :
    ofInput limits (String.ofList []) showTokens = { output := "> \n" } := rfl

/-- A session shows the mark and the run of its first line, and then what the session on the other lines shows. -/
theorem ofInput_append (h : FirstLine line rest) (limits : Limits) (showTokens : Bool) :
    ofInput limits (String.ofList (line ++ rest)) showTokens
      = { output := "> " } ++ (Run.ofProgram limits (String.ofList line) [] showTokens).shown
        ++ ofInput limits (String.ofList rest) showTokens := by
  unfold ofInput linesOf
  rw [String.toList_ofList, String.toList_ofList, h.pieces_eq, List.map_cons, session_cons]
  rfl

theorem ends_ofInput (limits : Limits) (showTokens : Bool) (text : List Char) :
    Ends limits showTokens text (ofInput limits (String.ofList text) showTokens) (some 0) := by
  induction text using Text.lineInduction with
  | nil => exact .atEnd
  | append line rest hline ih =>
    rw [ofInput_append hline]
    exact .line hline rfl (ending_ne_unreportable _ _ _) ih

theorem Ends.eq_ofInput (h : Ends limits showTokens text shown code) :
    shown = ofInput limits (String.ofList text) showTokens ∧ code = some 0 := by
  induction h with
  | atEnd => exact ⟨rfl, rfl⟩
  | line hline hrun _ _ ih =>
    rw [ofInput_append hline, ← ih.1, hrun]
    exact ⟨rfl, ih.2⟩
  | cut _ hrun hending =>
    -- only a log that held something before a run can cut its report short
    rw [hrun] at hending
    exact absurd hending (ending_ne_unreportable _ _ _)

/-- A session ends in one way: with exit code 0, whatever its lines are. -/
theorem ends_iff :
    Ends limits showTokens text shown code ↔
      shown = ofInput limits (String.ofList text) showTokens ∧ code = some 0 := by
  constructor
  · exact Ends.eq_ofInput
  · rintro ⟨rfl, rfl⟩
    exact ends_ofInput limits showTokens text

/-- The session on whole lines and more text goes on, where it would have ended, with the session on this text. -/
theorem exists_ofInput_append (hs : s = [] ∨ s.getLast? = some '\n') (t : List Char) (limits : Limits)
    (showTokens : Bool) :
    ∃ before : Shown, ofInput limits (String.ofList s) showTokens = before ++ { output := "> \n" } ∧
      ofInput limits (String.ofList (s ++ t)) showTokens = before ++ ofInput limits (String.ofList t) showTokens := by
  induction s using Text.lineInduction with
  | nil => exact ⟨{}, rfl, (Shown.empty_append _).symm⟩
  | append line rest hline ih =>
    have hclosed : (line ++ rest).getLast? = some '\n' :=
      hs.resolve_left (List.append_ne_nil_of_left_ne_nil hline.ne_nil rest)
    obtain ⟨hline', hrest⟩ := hline.append hclosed t
    obtain ⟨before, hbefore, hafter⟩ := ih hrest
    -- `before` grows by one turn at its front, in the session on `s` and in the one that goes on
    refine ⟨{ output := "> " } ++ (Run.ofProgram limits (String.ofList line) [] showTokens).shown ++ before, ?_, ?_⟩
    · rw [ofInput_append hline, hbefore, ← Shown.append_assoc]
    · rw [List.append_assoc, ofInput_append hline', hafter, ← Shown.append_assoc]

/-! ### Traces -/

/-- A traced session that comes to its end shows the same output as the session without traces. -/
theorem tracedLines_eq {tracer : Run.Tracer} {lines : List String}
    (h : (tracedLines limits tracer showTokens lines).2 = some n) :
    n = 0 ∧ (tracedLines limits tracer showTokens lines).1.output = (ofLines limits showTokens lines).output := by
  induction lines with
  | nil =>
    cases h
    exact ⟨rfl, rfl⟩
  | cons line lines ih =>
    unfold tracedLines at h ⊢
    dsimp only at h ⊢
    split at h
    · cases h
    · rename_i run hrun
      obtain ⟨hn, houtput⟩ := ih h
      obtain ⟨rfl, trace, htrace⟩ := Run.traced_eq hrun
      rw [htrace]
      refine ⟨hn, ?_⟩
      show "> " ++ ("" ++ (Run.ofProgram limits line [] showTokens).shown.output) ++ _
        = "> " ++ (Run.ofProgram limits line [] showTokens).shown.output ++ _
      rw [String.empty_append, houtput]

end Session

namespace CommandLine

/-- A command without a script is answered with a session on its input. -/
theorem respond_session {limits : Limits} {arguments : List String} {request : Request} {input text : String}
    (harguments : Request.ofArguments arguments = .ok request) (hhelp : request.help = false)
    (hdebug : request.debug = false) (hscripts : request.scripts = [])
    (htext : text.toList = Text.unifyNewlines input.toList) (tracer : Run.Tracer)
    (read : String → Except ReadFault ByteArray) :
    respond limits tracer arguments read input = .ok ⟨Session.ofInput limits text request.tokens, some 0⟩ := by
  unfold respond
  simp only [harguments, hhelp, hscripts, Bool.false_eq_true, if_false]
  rw [← htext, String.ofList_toList, session, hdebug]
  rfl

end CommandLine

namespace Session

open Text (FirstLine)

/-- A session on whole lines and more text shows what the session on the lines shows before its last mark, and then
what the session on the other text shows.  On one line it shows the mark, the run of this line with an empty log, which
comes back whatever is wrong with the line, and the last mark.  It ends with exit code 0 and in no other way.  All of
this is what a command without scripts and traces shows. -/
theorem sessions_compose (limits : Limits) (showTokens : Bool) :
    (∀ s t : String, s = "" ∨ s.toList.getLast? = some '\n' →
      ∃ before, (ofInput limits s showTokens).output = before ++ "> \n" ∧
        (ofInput limits (s ++ t) showTokens).output = before ++ (ofInput limits t showTokens).output ∧
        (ofInput limits (s ++ t) showTokens).errors
          = (ofInput limits s showTokens).errors ++ (ofInput limits t showTokens).errors) ∧
    (∀ line : String, FirstLine line.toList [] →
      let run := Run.ofProgram limits line [] showTokens
      (ofInput limits line showTokens).output = "> " ++ run.shown.output ++ "> \n" ∧
        (ofInput limits line showTokens).errors = run.shown.errors ∧
        (run.Reported ∨ run.TooHigh limits line showTokens ∨ run.Finished limits line showTokens)) ∧
    (∀ (text : String) (shown : Shown) (code : Option Nat),
      Ends limits showTokens text.toList shown code ↔ shown = ofInput limits text showTokens ∧ code = some 0) ∧
    ∀ (tracer : Run.Tracer) (arguments : List String) (request : CommandLine.Request) (input text : String)
      (read : String → Except CommandLine.ReadFault ByteArray),
      CommandLine.Request.ofArguments arguments = .ok request → request.help = false → request.debug = false →
      request.tokens = showTokens → request.scripts = [] → text.toList = Text.unifyNewlines input.toList →
      CommandLine.respond limits tracer arguments read input = .ok ⟨ofInput limits text showTokens, some 0⟩ := by
  refine ⟨?_, ?_, ?_, ?_⟩
  · intro s t hs
    have hlist : s.toList = [] ∨ s.toList.getLast? = some '\n' := by
      rwa [String.toList_eq_nil_iff]
    obtain ⟨before, hbefore, hafter⟩ := exists_ofInput_append hlist t.toList limits showTokens
    rw [← String.toList_append, String.ofList_toList, String.ofList_toList] at hafter
    rw [String.ofList_toList] at hbefore
    refine ⟨before.output, ?_, ?_, ?_⟩
    · rw [hbefore]
      rfl
    · rw [hafter]
      rfl
    · rw [hafter, hbefore, Shown.errors_append, Shown.errors_append, String.append_empty]
  · intro line hline run
    have hsession := ofInput_append hline limits showTokens
    rw [List.append_nil, String.ofList_toList, ofInput_nil] at hsession
    refine ⟨?_, ?_, Run.ofProgram_of_named (List.forall_mem_nil _) limits line showTokens⟩
    · rw [hsession]
      rfl
    · rw [hsession, Shown.errors_append, Shown.errors_append, String.empty_append, String.append_empty]
  · intro text shown code
    rw [ends_iff, String.ofList_toList]
  · intro tracer arguments request input text read harguments hhelp hdebug htokens hscripts htext
    rw [← htokens]
    exact CommandLine.respond_session harguments hhelp hdebug hscripts htext tracer read

/-- A session on a line with an unexpected character and one that ends too early, and then on one without a line
feed. -/
theorem sessions_compose_mistakes :
    let limits : Limits := ⟨100, 100⟩
    let s := "1 @\n(\n"
    let t := "!true"
    (∃ before, (ofInput limits s false).output = before ++ "> \n" ∧
      (ofInput limits (s ++ t) false).output = before ++ (ofInput limits t false).output ∧
      (ofInput limits (s ++ t) false).errors = (ofInput limits s false).errors ++ (ofInput limits t false).errors) ∧
    (ofInput limits t false).output = "> " ++ (Run.ofProgram limits t [] false).shown.output ++ "> \n" ∧
    ofInput limits (s ++ t) false = ⟨"> > > (! true)\n> \n",
      "[line 1] Error: Unexpected character: '@'\n[line 2] Error at end: Expect expression.\n"⟩ := by
  intro limits s t
  have hline : FirstLine t.toList [] := .last (by decide) (by decide)
  refine ⟨(sessions_compose limits false).1 s t (by decide), ((sessions_compose limits false).2.1 t hline).1, ?_⟩
  decide +kernel

end Session

end LoxSyntax
