import LoxSyntax.Expr.Printer
import LoxSyntax.Expr.Reader

/-!
# Runs and sessions

A run reads one program and shows its expression, or its tokens, or its mistakes.  A session at the prompt runs every
line of its input on its own.  How deeply an expression may be nested, and what is shown when runs are traced, depends
on the surroundings and is a parameter.

* `Shown.append_assoc`: what is shown in three parts can be put together in both ways.
* `run_log`: a run adds the mistakes in the tokens, then the one in the grammar, to its log.
* `session_cons`: a session is the run of its first line followed by the session on the rest.
-/

namespace LoxSyntax

/-- What has been shown: regular output and errors. -/
structure Shown where
  output : String := ""
  errors : String := ""
  deriving DecidableEq, Repr

/-- What is shown first, followed by what is shown then. -/
def Shown.append (a b : Shown) : Shown := ⟨a.output ++ b.output, a.errors ++ b.errors⟩

instance : Append Shown := ⟨Shown.append⟩

theorem Shown.errors_append (a b : Shown) : (a ++ b).errors = a.errors ++ b.errors := rfl

theorem Shown.empty_append (a : Shown) : ({} : Shown) ++ a = a := by
  show Shown.mk ("" ++ a.output) ("" ++ a.errors) = a
  rw [String.empty_append, String.empty_append]

theorem Shown.append_assoc (a b c : Shown) : a ++ b ++ c = a ++ (b ++ c) := by
  show Shown.mk (a.output ++ b.output ++ c.output) (a.errors ++ b.errors ++ c.errors) = _
  rw [String.append_assoc, String.append_assoc]
  rfl

/-- The limits of a run: how deeply frames may be nested while an expression is parsed, and how many calls while it is
printed. -/
structure Limits where
  parsing : Nat
  printing : Nat
  deriving DecidableEq, Repr

/-- How a run ends. -/
inductive Ending where
  /-- the expression, or its tokens, were shown -/
  | finished (e : Expr Span)
  /-- the log was reported -/
  | reported
  /-- the expression is too high to print -/
  | tooDeep
  /-- the log holds a diagnostic that has no one-line form -/
  | unreportable

/-- The expression of a run that has shown it. -/
def Ending.tree? : Ending → Option (Expr Span)
  | finished e => some e
  | _ => none

/-- What a run shows and leaves. -/
structure Run where
  ending : Ending
  shown : Shown
  log : Log

namespace Run

/-- Report a log. -/
def report (log : Log) : Run :=
  let (text, complete) := log.report
  ⟨if complete then .reported else .unreportable, { errors := text }, log⟩

/-- Show the tokens, one on each line, or the expression that they form. -/
def display (limits : Limits) (tokens : List Token) (e : Expr Span) (showTokens : Bool) : Run :=
  if showTokens then ⟨.finished e, { output := String.join (tokens.map fun t => t.record ++ "\n") }, []⟩
  else match e.printed? limits.printing with
    | some text => ⟨.finished e, { output := text ++ "\n" }, []⟩
    | none => ⟨.tooDeep, { errors := "Error: " ++ Expr.tooDeepToPrint ++ "\n" }, []⟩

/-- Run a program with a log that may hold diagnostics already. -/
def ofProgram (limits : Limits) (program : String) (log : Log) (showTokens : Bool) : Run :=
  let lexed := Lexed.ofProgram program
  let parsed := Parsed.ofTokens limits.parsing program lexed.tokens
  match parsed.tree?, log ++ lexed.errors ++ parsed.errors with
  | some e, [] => display limits lexed.tokens e showTokens
  | _, log' => report log'

theorem run_log (limits : Limits) (program : String) (log : Log) (showTokens : Bool) :
    (ofProgram limits program log showTokens).log = log ++ (Parsed.ofProgram limits.parsing program).errors := by
  have key : log ++ (Lexed.ofProgram program).errors
      ++ (Parsed.ofTokens limits.parsing program (Lexed.ofProgram program).tokens).errors
      = log ++ (Parsed.ofProgram limits.parsing program).errors := by
    rw [Parsed.ofProgram, List.append_assoc]
  rw [← key]
  unfold ofProgram
  dsimp only
  split
  · rename_i e h
    rw [h]
    unfold display
    split
    · rfl
    · split <;> rfl
  · rfl

/-! ### Traces -/

/-- How runs are traced: the text for the tokens of a program and the text for its expression, unless the expression
cannot be traced. -/
structure Tracer where
  tokens : List Token → Option String
  tree : Option (Expr Span) → Option String

/-- What a traced run shows, and the run itself when no trace has failed.  Both traces go to the errors before anything
else is shown. -/
def traced (limits : Limits) (tracer : Tracer) (program : String) (log : Log) (showTokens : Bool) :
    Shown × Option Run :=
  let tokens := (Lexed.ofProgram program).tokens
  match tracer.tokens tokens with
  | none => ({}, none)
  | some first =>
    match tracer.tree (Parsed.ofTokens limits.parsing program tokens).tree? with
    | none => ({ errors := first }, none)
    | some second =>
      let run := ofProgram limits program log showTokens
      ({ errors := first ++ second } ++ run.shown, some run)

end Run

namespace Session

/-- The exit code of a program that is wrong. -/
def dataError : Nat := 65

/-- The exit code of a run. -/
def exitCode (r : Run) : Nat := if r.ending.tree?.isSome then 0 else dataError

/-- What a session shows before each line. -/
def promptMark : String := "> "

/-- What a session on some lines shows; each line begins with an empty log. -/
def ofLines (limits : Limits) (showTokens : Bool) : List String → Shown
  | [] => { output := promptMark ++ "\n" }
  | line :: rest =>
    let first : Shown := { output := promptMark } ++ (Run.ofProgram limits line [] showTokens).shown
    first ++ ofLines limits showTokens rest

/-- What a traced session on some lines shows, and its exit code unless a trace fails, which ends it. -/
def tracedLines (limits : Limits) (tracer : Run.Tracer) (showTokens : Bool) : List String → Shown × Option Nat
  | [] => ({ output := promptMark ++ "\n" }, some 0)
  | line :: rest =>
    let (shown, run?) := Run.traced limits tracer line [] showTokens
    let first : Shown := { output := promptMark } ++ shown
    match run? with
    | none => (first, none)
    | some _ =>
      let (more, code?) := tracedLines limits tracer showTokens rest
      (first ++ more, code?)

/-- The lines of an input, each with its line feed. -/
def linesOf (input : String) : List String := (Text.pieces input.toList).map String.ofList

/-- What a session on an input shows. -/
def ofInput (limits : Limits) (input : String) (showTokens : Bool) : Shown :=
  ofLines limits showTokens (linesOf input)

theorem session_cons (limits : Limits) (showTokens : Bool) (line : String) (rest : List String) :
    ofLines limits showTokens (line :: rest)
      = { output := promptMark } ++ (Run.ofProgram limits line [] showTokens).shown
        ++ ofLines limits showTokens rest := rfl

end Session

end LoxSyntax
