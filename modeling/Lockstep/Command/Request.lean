import Lockstep.Report.Format

/-!
# Requests on the command line

The first word names a command; options follow in any order.  The value of an option stands
behind an equals sign or is the next word, whatever it is; of several values the last one counts.
`Request.ofWords?` gives nothing when the words are no request.
-/

namespace Lockstep.Command

/-- What is asked for. -/
inductive Request
  | run (config : Option Text) (format : ReportFormat) (steps verbose : Bool)
  | check (config : Option Text)
  | help
  deriving DecidableEq, Repr

/-- The options of a command that take a value, and its flags. -/
structure Grammar where
  options : List String
  flags : List String

/-- What was found behind a command, the last found first. -/
structure Found where
  values : List (String × Text)
  flags : List String

namespace Found

/-- The value of an option that counts. -/
def value? (f : Found) (name : String) : Option Text :=
  (f.values.find? fun v => v.1 == name).map (·.2)

/-- Whether a flag was set. -/
def has (f : Found) (name : String) : Bool := f.flags.contains name

end Found

/-- The flag that asks for help. -/
def helpFlag : String := "--help"

/-- Two dashes alone end the options. -/
def endMark : Text := ['-', '-']

/-- Read the words behind a command.  Nothing but options may stand there. -/
def read? (g : Grammar) : List Text → Option Found
  | [] => some ⟨[], []⟩
  | word :: words =>
    if word == endMark then (if words.isEmpty then some ⟨[], []⟩ else none)
    else
      let name := String.ofList (word.takeWhile (· != '='))
      if word.contains '=' then
        if g.options.contains name then
          (read? g words).map fun f =>
            { f with values := f.values ++ [(name, (Text.cutAt '=' word).2)] }
        else none
      else if g.flags.contains name || name == helpFlag then
        (read? g words).map fun f => { f with flags := name :: f.flags }
      else if g.options.contains name then
        match words with
        | [] => none
        | v :: words => (read? g words).map fun f => { f with values := f.values ++ [(name, v)] }
      else none

namespace Request

/-- The format that a word names, in any case. -/
def format? (value : Option Text) : Option ReportFormat :=
  match value with
  | none => some .table
  | some s => (ReportFormat.ofText (Text.lowerAscii s)).toOption

/-- The options of the command that runs a job. -/
def runGrammar : Grammar := ⟨["--config", "--format"], ["--steps", "--verbose"]⟩

/-- The options of the command that checks a job. -/
def checkGrammar : Grammar := ⟨["--config"], []⟩

/-- A request to run a job. -/
def run? (words : List Text) : Option Request := do
  let f ← read? runGrammar words
  if f.has helpFlag then some .help
  else
    let format ← format? (f.value? "--format")
    some (.run (f.value? "--config") format (f.has "--steps") (f.has "--verbose"))

/-- A request to check a job. -/
def check? (words : List Text) : Option Request := do
  let f ← read? checkGrammar words
  if f.has helpFlag then some .help else some (.check (f.value? "--config"))

/-- The request to a command. -/
def ofCommand? : List Text → Option Request
  | [] => none
  | name :: words =>
    if name == "run".toList then run? words
    else if name == "check".toList then check? words
    else none

/-- The request that words make. -/
def ofWords? : List Text → Option Request
  | [] => none
  | word :: words =>
    if word == helpFlag.toList then some .help
    else ofCommand? (if word == endMark then words else word :: words)

end Request

end Lockstep.Command
