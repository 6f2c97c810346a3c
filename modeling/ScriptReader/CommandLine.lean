import ScriptReader.Directory
import ScriptReader.Script.Reading
import ScriptReader.Text.Quoted
import ScriptReader.Tree.Document
import ScriptReader.Tree.Printed

/-!
# CommandLine — what the program does with its arguments and the file they name

`Invocation.ofArguments` reads the arguments, `Invocation.outcome` computes all that the program
shows, from what is read in the place of the file.  Neither touches a file itself.
-/

namespace ScriptReader

/-! ## Arguments -/

/-- What is done with a script. -/
inductive Command where
  /-- List the tokens of its statements. -/
  | tokenize
  /-- Print its tree. -/
  | parse
  deriving DecidableEq, Repr

/-- The options and the file name that follow a command. -/
structure Options where
  file? : Option String
  log : Bool
  /-- Print the tree as a document. -/
  asDocument : Bool
  deriving DecidableEq, Repr

/-- What the arguments ask for. -/
inductive Invocation where
  | run (command : Command) (options : Options)
  | version
  /-- The arguments make no sense. -/
  | misused
  deriving DecidableEq, Repr

namespace Options

/-- Takes a file name, of which there may be one, and not an empty one. -/
def takeFile? (name : String) (o : Options) : Option Options :=
  if o.file?.isSome ∨ name = "" then none else some { o with file? := some name }

/-- Takes an option, each at most once, of those that the command has. -/
def takeOption? (command : Command) (option : String) (o : Options) : Option Options :=
  if option = "--log" ∧ !o.log then some { o with log := true }
  else if option = "--json" ∧ command = .parse ∧ !o.asDocument then
    some { o with asDocument := true }
  else none

/-- Reads what follows a command; after `--` all are file names. -/
def read? (command : Command) : List String → Options → Option Options
  | [], o => some o
  | "--" :: names, o => names.foldlM (fun o name => o.takeFile? name) o
  | argument :: arguments, o =>
    if argument.startsWith "-" ∧ argument ≠ "-" then
      (o.takeOption? command argument).bind (read? command arguments)
    else (o.takeFile? argument).bind (read? command arguments)

end Options

namespace Invocation

/-- A command with what follows it; an option before it counts as well. -/
def ofCommand (command : Command) (log : Bool) (arguments : List String) : Invocation :=
  match Options.read? command arguments ⟨none, false, false⟩ with
  | some o => run command { o with log := o.log || log }
  | none => misused

/-- Reads the arguments from the first one on, after `--log` has been read or not. -/
def ofArgumentsFrom (log : Bool) : List String → Invocation
  | [] => misused
  | "--log" :: arguments => if log then misused else ofArgumentsFrom true arguments
  | "--version" :: _ => version
  | "tokenize" :: arguments => ofCommand .tokenize log arguments
  | "parse" :: arguments => ofCommand .parse log arguments
  | argument :: _ => if argument.startsWith "-V" then version else misused

/-- What the arguments of the program ask for. -/
def ofArguments (arguments : List String) : Invocation := ofArgumentsFrom false arguments

/-- The file that is to be read. -/
def file? : Invocation → Option String
  | run _ o => o.file?
  | _ => none

end Invocation

/-! ## Outcomes -/

/-- What the program shows. -/
structure Outcome where
  exit : Nat
  stdout : String
  stderr : String
  /-- Is a log kept? -/
  logs : Bool
  deriving DecidableEq, Repr

namespace Outcome

/-- A script that is refused, after some output. -/
def refused (stdout : String) (e : Error) : Outcome := ⟨65, stdout, e.message ++ "\n", false⟩

/-- A file that cannot be read. -/
def unreadable (name : String) (fault : FileFault) : Outcome :=
  ⟨1, "", "Error: Failed to " ++ fault.action ++ " file " ++ Text.quoted name ++
    "\n\nCaused by:\n    " ++ fault.reason ++ "\n", false⟩

end Outcome

/-- The line of a token in a listing. -/
def Token.listed (t : Token) : String := s!"{t.kind.label} {t.text} {t.line}\n"

/-- The tokens of the statements, each with a closing line, up to the end or an error. -/
def Source.listing (src : Source) : String × Option Error :=
  let scan := src.scan
  match scan.error? with
  | some e => ("", some e)
  | none =>
    if h : scan.tokens = [] then ("", none)
    else
      have : scan.source.rest.length < src.rest.length := src.length_scanFrom_lt _ _ h
      let (rest, error?) := scan.source.listing
      (String.join (scan.tokens.map Token.listed) ++ "EOS\n" ++ rest, error?)
termination_by src.rest.length

/-- Lists the tokens of a script. -/
def listScript (source : List Char) : Outcome :=
  match (Source.ofList source).listing with
  | (out, none) => ⟨0, out, "", false⟩
  | (out, some e) => .refused out e

/-- Prints the tree of a script. -/
def printScript (asDocument : Bool) (source : List Char) : Outcome :=
  match Script.read (String.ofList source) with
  | .error e => .refused "" e
  | .ok script =>
    ⟨0, if asDocument then script.document.pretty ++ "\n" else script.printed, "", false⟩

/-- What a command shows of the contents of a file. -/
def Command.outcome (command : Command) (asDocument : Bool) (contents : List UInt8) : Outcome :=
  match Text.decode contents with
  | .error fault => .refused "" (.notText fault)
  | .ok source =>
    match command with
    | .tokenize => listScript source
    | .parse => printScript asDocument source

/-- What the program shows, where `read` is how files are read. -/
def Invocation.outcome (read : String → Except FileFault (List UInt8)) : Invocation → Outcome
  | misused => ⟨2, "", "", false⟩
  | version => ⟨0, "haw_script 0.1.0\n", "", false⟩
  | run command o =>
    let shown : Outcome :=
      match o.file? with
      | none => ⟨0, "No input filepath was provided. Exiting...\n", "", false⟩
      | some name =>
        match read name with
        | .error fault => .unreadable name fault
        | .ok contents => command.outcome o.asDocument contents
    { shown with logs := o.log }

/-- What the program shows, called with arguments in a directory. -/
def run (arguments : List String) (d : Directory) : Outcome :=
  (Invocation.ofArguments arguments).outcome d.read

end ScriptReader
