import LoxSyntax.Text.Digit
import LoxSyntax.Text.Quoted

/-!
# Arguments

The arguments of a command are switches and scripts.  A long switch may be shortened as long as it stays unambiguous,
two dashes end the switches, and all scripts have to stand together.

* `classifyAll_dashes`: after two dashes nothing is a switch.
-/

namespace LoxSyntax.CommandLine

/-- What can be asked for. -/
inductive Switch where
  | help
  | tokens
  | debug
  deriving DecidableEq, Repr

/-- The names of a switch, as a message lists them. -/
def Switch.names : Switch → String
  | help => "-h/--help"
  | tokens => "--tokens"
  | debug => "--debug"

/-- The spellings of the switches. -/
def spellings : List (String × Switch) :=
  [("-h", .help), ("--help", .help), ("--tokens", .tokens), ("--debug", .debug)]

/-- What an argument is.  A switch may have text attached: after an equals sign, or directly after a short switch. -/
inductive Reading where
  | script
  | switch (s : Switch) (short : Bool) (attached : Option (List Char))
  | unknown
  deriving DecidableEq, Repr

/-- Why arguments are refused. -/
inductive UsageError where
  | ambiguous (argument : String) (candidates : List String)
  | attached (s : Switch) (text : String)
  | unrecognized (arguments : List String)
  deriving DecidableEq, Repr

/-- The reason in words. -/
def UsageError.message : UsageError → String
  | ambiguous argument candidates =>
    "ambiguous option: " ++ argument ++ " could match " ++ String.intercalate ", " candidates
  | attached s text => "argument " ++ s.names ++ ": ignored explicit argument " ++ Text.quote text
  | unrecognized arguments => "unrecognized arguments: " ++ String.intercalate " " arguments

/-- The text before the first equals sign, and the text after it if there is one. -/
def splitEquals (t : List Char) : List Char × Option (List Char) :=
  match t.dropWhile (· != '=') with
  | [] => (t, none)
  | _ :: rest => (t.takeWhile (· != '='), some rest)

/-- Whether a text is a minus with digits after it, which may have a point before the last of them; a line feed at its
end does not count. -/
def looksNegative (t : List Char) : Bool :=
  let isDigit := fun c => (Text.digitValue? c).isSome
  match t with
  | '-' :: rest =>
    let rest := if rest.getLast? = some '\n' then rest.dropLast else rest
    match rest.dropWhile isDigit with
    | [] => !rest.isEmpty
    | '.' :: fraction => !fraction.isEmpty && fraction.all isDigit
    | _ => false
  | _ => false

/-- A text that begins with a dash and is no switch: it counts as a script when it looks like a negative number or
holds a space. -/
def readUnknown (t : List Char) : Reading :=
  if looksNegative t || t.contains ' ' then .script else .unknown

/-- The spellings that begin with a text. -/
def completions (t : List Char) : List (String × Switch) :=
  spellings.filter fun s => t.isPrefixOf s.1.toList

/-- An argument that begins with two dashes: a switch, which may be shortened and have a text attached. -/
def classifyLong (argument : String) : Except UsageError Reading :=
  let (name, text) := splitEquals argument.toList
  match completions name with
  | [] => .ok (readUnknown argument.toList)
  | [(_, s)] => .ok (.switch s false text)
  | more => .error (.ambiguous argument (more.map Prod.fst))

/-- An argument that begins with a dash and another character. -/
def classifyShort (t : List Char) : Reading :=
  match t with
  | ['-', 'h'] => .switch .help true none
  | '-' :: 'h' :: '=' :: rest => .switch .help true (some rest)
  | '-' :: 'h' :: rest => .switch .help true (some rest)
  | _ => readUnknown t

/-- What an argument is when no two dashes precede it. -/
def classify (argument : String) : Except UsageError Reading :=
  match argument.toList with
  | '-' :: '-' :: _ =>
    match spellings.find? (·.1 == argument) with
    | some (_, s) => .ok (.switch s false none)
    | none => classifyLong argument
  | '-' :: c :: rest => .ok (classifyShort ('-' :: c :: rest))
  | _ => .ok .script

/-- The arguments with their readings; two dashes by themselves and all that follows them count as scripts. -/
def classifyAll : List String → Except UsageError (List (String × Reading))
  | [] => .ok []
  | argument :: rest =>
    if argument = "--" then .ok ((argument :: rest).map (·, .script))
    else do
      let reading ← classify argument
      let readings ← classifyAll rest
      return (argument, reading) :: readings

/-- What the arguments ask for so far. -/
structure Request where
  help : Bool := false
  tokens : Bool := false
  debug : Bool := false
  scripts : List String := []
  /-- whether a switch has followed the scripts, so that no more can come -/
  closed : Bool := false
  unrecognized : List String := []
  deriving DecidableEq, Repr

/-- Ask for what a switch stands for. -/
def Request.set (r : Request) : Switch → Request
  | .help => { r with help := true }
  | .tokens => { r with tokens := true }
  | .debug => { r with debug := true }

/-- The part of a text attached to a short switch that cannot stand there.  The text is read as further short
switches; the first character that is none of them is refused together with all that follows it. -/
def refusedText? : List Char → Option (List Char)
  | [] => some []
  | ['h'] => none
  | 'h' :: rest => refusedText? rest
  | text => some text

/-- Take an argument into account. -/
def Request.take (r : Request) (argument : String) : Reading → Except UsageError Request
  | .script =>
    if r.closed then .ok { r with unrecognized := r.unrecognized ++ [argument] }
    else .ok { r with scripts := r.scripts ++ [argument] }
  | .unknown => .ok { r with closed := !r.scripts.isEmpty, unrecognized := r.unrecognized ++ [argument] }
  | .switch s short attached =>
    let taken := { r.set s with closed := !r.scripts.isEmpty }
    match attached.bind (if short then refusedText? else some) with
    | none => .ok taken
    | some text => .error (.attached s (String.ofList text))

/-- Take all arguments into account, from left to right; nothing that follows a request for help is looked at. -/
def Request.takeAll (r : Request) : List (String × Reading) → Except UsageError Request
  | [] => .ok r
  | (argument, reading) :: rest => do
    let r' ← r.take argument reading
    if r'.help then return r' else r'.takeAll rest

/-- The request that arguments make.  The first two dashes among the scripts are none of them. -/
def Request.ofArguments (arguments : List String) : Except UsageError Request := do
  let readings ← classifyAll arguments
  let r ← ({} : Request).takeAll readings
  if r.help then return r
  else if r.unrecognized.isEmpty then return { r with scripts := r.scripts.erase "--" }
  else throw (.unrecognized r.unrecognized)

theorem classifyAll_dashes (rest : List String) :
    classifyAll ("--" :: rest) = .ok (("--", .script) :: rest.map (·, .script)) := by
  simp [classifyAll]

end LoxSyntax.CommandLine
