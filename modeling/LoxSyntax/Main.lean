import LoxSyntax.CommandLine

/-!
# The program

Arguments, files and the terminal meet the command line here.  A session shows its mark before it waits for a line;
everything else that is shown is decided by `CommandLine.respond` and `Run.ofProgram`.  At most 5000 calls may be
nested.
-/

namespace LoxSyntax.CommandLine

/-- The limits of the program, less the calls that are under way when an operand is looked for or an expression is
printed. -/
def limits : Limits := ⟨5000 - 24, 5000 - 7⟩

/-- Traces that take one line each. -/
def tracer : Run.Tracer where
  tokens := fun ts => some ("lox| tokens: [" ++ String.intercalate ", " (ts.map Token.inspect) ++ "]\n")
  tree := fun e => some ("lox| tree: " ++ (e.map Expr.inspect).getD "None" ++ "\n")

/-- Show regular output and errors. -/
def putShown (s : Shown) : IO Unit := do
  IO.print s.output
  IO.eprint s.errors
  (← IO.getStdout).flush

/-- Read the bytes of a script. -/
def readScript (path : String) : IO (Except ReadFault ByteArray) := do
  try
    return .ok (← IO.FS.readBinFile path)
  catch e =>
    match e with
    | .noFileOrDirectory .. => return .error .missing
    | .invalidArgument .. => return .error .nameTooLong
    | _ => return .error .directory

/-- Run one line of a session. -/
def putLine (request : Request) (line : String) : IO Unit :=
  if request.debug then putShown (Run.traced limits tracer line [] request.tokens).1
  else putShown (Run.ofProgram limits line [] request.tokens).shown

/-- Run the lines of the terminal until its input ends. -/
partial def runPrompt (request : Request) : IO Unit := do
  putShown { output := Session.promptMark }
  let line ← (← IO.getStdin).getLine
  if line.isEmpty then putShown { output := "\n" }
  else
    match Session.linesOf (String.ofList (Text.unifyNewlines line.toList)) with
    | [] => pure ()
    | first :: rest =>
      putLine request first
      for further in rest do
        putShown { output := Session.promptMark }
        putLine request further
    runPrompt request

/-- What is said of a script that cannot be read. -/
def ReadFault.message (script : String) : ReadFault → String
  | notPath => script ++ ": not a path\n"
  | nameTooLong => script ++ ": name too long\n"
  | missing => script ++ ": no such file\n"
  | notDirectory => script ++ ": a part of the path is not a folder\n"
  | directory => script ++ ": not a file\n"
  | notText => script ++ ": not a text\n"

/-- Answer arguments; the result is the exit code. -/
def execute (arguments : List String) : IO Nat := do
  let answer (path : String) (bytes : Except ReadFault ByteArray) : IO Nat :=
    match respond limits tracer arguments (fun _ => bytes) "" with
    | .ok r => do putShown r.shown; return r.code?.getD 1
    | .error fault => do putShown { errors := fault.message path }; return 1
  match Request.ofArguments arguments with
  | .ok request =>
    match request.help, request.scripts with
    | false, [] => runPrompt request; return 0
    | false, [path] => answer path (← readScript (normalPath path))
    | _, _ => answer "" (.error .missing)
  | .error _ => answer "" (.error .missing)

end LoxSyntax.CommandLine

/-- The program. -/
def main (arguments : List String) : IO UInt32 := do
  return UInt32.ofNat (← LoxSyntax.CommandLine.execute arguments)
