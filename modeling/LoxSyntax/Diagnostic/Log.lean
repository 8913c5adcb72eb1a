import LoxSyntax.Diagnostic

/-!
# Logs

A log holds the diagnostics of one or more passes in the order in which they were found.  It can be reported line by
line, or raised as one text in the name of a stage.

* `report_snd_of_all`: a log whose diagnostics all have messages is reported whole.
* `raise_of_none`: a log is kept when a diagnostic that has to be shown cannot be.
-/

namespace LoxSyntax

/-- Diagnostics in the order of their discovery. -/
abbrev Log := List Diagnostic

/-- The stages that can fail. -/
inductive Stage where
  | compiler
  | scanner
  | parser
  | printer
  deriving DecidableEq, Repr

/-- The name of the failure of a stage. -/
def Stage.name : Stage → String
  | compiler => "CompilerException"
  | scanner => "ScannerException"
  | parser => "ParserException"
  | printer => "PrinterException"

/-- The stage of the name of a failure. -/
def Stage.ofName? (s : String) : Option Stage :=
  [compiler, scanner, parser, printer].find? (·.name == s)

/-- What raising a log comes to. -/
inductive Raised where
  /-- there was nothing to raise -/
  | nothing
  /-- a stage failed, with the listings -/
  | failure (stage : Stage) (text : String)
  /-- a diagnostic has no listing -/
  | unlistable
  deriving DecidableEq, Repr

namespace Log

/-- How many diagnostics are listed when a log is raised. -/
def maxShown : Nat := 10

/-- The one-line forms, each with a line feed, up to the first diagnostic that has none; and whether all have one. -/
def report : Log → String × Bool
  | [] => ("", true)
  | d :: rest =>
    match d.summary? with
    | none => ("", false)
    | some s => (s ++ "\n" ++ (report rest).1, (report rest).2)

/-- The listings, each with a blank line before it, if every diagnostic has one. -/
def listings? : Log → Option String
  | [] => some ""
  | d :: rest =>
    match d.listing?, listings? rest with
    | some s, some t => some ("\n\n" ++ s ++ t)
    | _, _ => none

/-- What is said of the diagnostics beyond those that are listed. -/
def omission (count : Nat) : String :=
  if count ≤ maxShown then ""
  else
    let omitted := count - maxShown
    "\n\nShowing " ++ Decimal.showInt maxShown ++ " errors, omitting " ++ Decimal.showInt omitted ++ " error"
      ++ (if 1 < omitted then "s" else "") ++ "..."

/-- Raise a log in the name of a stage: what comes of it, and the log that is left. -/
def raise (log : Log) (stage : Stage) : Raised × Log :=
  if log.isEmpty then (.nothing, log)
  else match listings? (log.take maxShown) with
    | none => (.unlistable, log)
    | some text => (.failure stage (text ++ omission log.length), [])

theorem report_snd_of_all {log : Log} (h : ∀ d ∈ log, d.cause.isUnnamed = false) : (report log).2 = true := by
  induction log with
  | nil => rfl
  | cons d rest ih =>
    obtain ⟨s, hs⟩ := Option.isSome_iff_exists.1 ((Diagnostic.summary?_isSome_iff d).2 (h d List.mem_cons_self))
    simp only [report, hs]
    exact ih fun e he => h e (List.mem_cons_of_mem _ he)

theorem raise_of_none {log : Log} {stage : Stage} (h : listings? (log.take maxShown) = none) :
    (raise log stage).2 = log := by
  unfold raise
  split
  · rfl
  · simp [h]

end Log

end LoxSyntax
