import LoxSyntax.CommandLine.Arguments
import LoxSyntax.CommandLine.Folder
import LoxSyntax.Session

/-!
# The command line

The command runs a script, or a session at the prompt when it is given none.  On request what it runs is traced.

* `respond_help`: a request for help is answered whatever else is asked for.
* `respond_prompt`: without a script the command answers with a session.
-/

namespace LoxSyntax.CommandLine

/-- What a command shows, and its exit code; there is none when a trace fails. -/
structure Response where
  shown : Shown
  code? : Option Nat
  deriving DecidableEq, Repr

/-- How the command is used. -/
def usage : String := "usage: lox [-h] [--tokens] [--debug] [script ...]\n"

/-- The help text. -/
def helpText : String :=
  usage ++ "\n"
    ++ "Parse a Lox expression and print its syntax tree.\n"
    ++ "\n"
    ++ "positional arguments:\n"
    ++ "  script      Path to a file holding one expression\n"
    ++ "\n"
    ++ "options:\n"
    ++ "  -h, --help  show this help message and exit\n"
    ++ "  --tokens    Print the scanned tokens instead of the tree\n"
    ++ "  --debug     Trace the tokens and tree with icecream\n"

/-- The exit code of a command with more than one script. -/
def tooManyScripts : Nat := 64

/-- The exit code of a command that is not used as it should be. -/
def misused : Nat := 2

/-- The text of a script: its bytes are read as text, and every kind of line end becomes a line feed. -/
def decode (bytes : ByteArray) : Except ReadFault String :=
  match String.fromUTF8? bytes with
  | some text => .ok (String.ofList (Text.unifyNewlines text.toList))
  | none => .error .notText

/-- The response of a session on a text. -/
def session (limits : Limits) (tracer : Run.Tracer) (request : Request) (text : String) : Response :=
  if request.debug then
    let (shown, code?) := Session.tracedLines limits tracer request.tokens (Session.linesOf text)
    ⟨shown, code?⟩
  else ⟨Session.ofInput limits text request.tokens, some 0⟩

/-- The response of a run of a program. -/
def script (limits : Limits) (tracer : Run.Tracer) (request : Request) (program : String) : Response :=
  if request.debug then
    let (shown, run?) := Run.traced limits tracer program [] request.tokens
    ⟨shown, run?.map Session.exitCode⟩
  else
    let run := Run.ofProgram limits program [] request.tokens
    ⟨run.shown, some (Session.exitCode run)⟩

/-- The response to arguments, with a way to read scripts and the input of a session. -/
def respond (limits : Limits) (tracer : Run.Tracer) (arguments : List String)
    (read : String → Except ReadFault ByteArray) (input : String) : Except ReadFault Response :=
  match Request.ofArguments arguments with
  | .error e => .ok ⟨{ errors := usage ++ "lox: error: " ++ e.message ++ "\n" }, some misused⟩
  | .ok request =>
    if request.help then .ok ⟨{ output := helpText }, some 0⟩
    else match request.scripts with
      | [] => .ok (session limits tracer request (String.ofList (Text.unifyNewlines input.toList)))
      | [path] => do
        let program ← decode (← read (normalPath path))
        return script limits tracer request program
      | _ => .ok ⟨{ output := "Usage: lox [script]\n" }, some tooManyScripts⟩

variable (limits : Limits) (tracer : Run.Tracer)

theorem respond_help {arguments : List String} {request : Request}
    (h : Request.ofArguments arguments = .ok request) (help : request.help = true)
    (read : String → Except ReadFault ByteArray) (input : String) :
    respond limits tracer arguments read input = .ok ⟨{ output := helpText }, some 0⟩ := by
  simp [respond, h, help]

theorem respond_prompt (read : String → Except ReadFault ByteArray) (input : String) :
    respond limits tracer [] read input
      = .ok ⟨Session.ofInput limits (String.ofList (Text.unifyNewlines input.toList)) false, some 0⟩ := rfl

end LoxSyntax.CommandLine
