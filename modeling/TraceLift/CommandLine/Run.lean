/-
# A run of the program

A run takes the steps of its command line, reads a trace, makes its graph, and writes what was
asked for.  It is a function of the command line, the standard input and the working directory,
and yields what is printed and logged, how it ends, and the working directory afterwards.
-/
import TraceLift.Directory
import TraceLift.CommandLine.Words
import TraceLift.Facts
import TraceLift.Text.Lines
import TraceLift.Visit

namespace TraceLift.CommandLine

/-! ## 1. What is asked for -/

/-- What a command line asks for. -/
structure Request where
  /-- The folder for the facts, if they are asked for. -/
  tsv : Option String := none
  opcodes : List String := []
  verbose : Bool := false
  prolix : Bool := false
  noOutput : Bool := false
  version : Bool := false
  /-- The name and the place of the input, if it is a file. -/
  input : Option (String × List String) := none
  leftOver : List String := []

/-- How a run ends. -/
inductive Ending where
  | exit (code : Nat)
  | failure (fault : Fault)

/-- What a run produces. -/
structure Outcome where
  ending : Ending
  stdout : String := ""
  log : String := ""
  directory : Directory

/-- The name of the program in its messages. -/
def programName : String := "decompile_geth"

/-- How the program is called. -/
def usage : String :=
  "usage: " ++ programName ++ " [-h] [-t [DIR]] [-o [OPCODE ...]] [-v] [-vv] [-n] [-V]\n" ++
  "                      [infile] [outfile]\n"

/-- The help text. -/
def helpText : String :=
  usage ++ "\n" ++
  "An EVM bytecode disassembly that generatesthree-address code for program\n" ++
  "analysis.\n" ++
  "\n" ++
  "positional arguments:\n" ++
  "  infile                file from which decompiler input should be read (stdin\n" ++
  "                        by default).\n" ++
  "  outfile               file to which decompiler output should be written\n" ++
  "                        (stdout by default).\n" ++
  "\n" ++
  "options:\n" ++
  "  -h, --help            show this help message and exit\n" ++
  "  -t [DIR], --tsv [DIR]\n" ++
  "                        generate tab-separated .facts files for Souffle and\n" ++
  "                        write files to the specified directory, which will be\n" ++
  "                        recursively created if it does not exist (current\n" ++
  "                        working directory by default).\n" ++
  "  -o [OPCODE ...], --opcodes [OPCODE ...]\n" ++
  "                        If producing tsv output, also include relations\n" ++
  "                        encoding all occurrences of the specified list of\n" ++
  "                        opcodes. Opcode X will be stored in op_X.facts.\n" ++
  "  -v, --verbose         emit verbose debug output to stderr.\n" ++
  "  -vv, --prolix         higher verbosity level, including extra debug messages\n" ++
  "                        from dataflow analysis and elsewhere.\n" ++
  "  -n, --no_out          do not output decompiled graph.\n" ++
  "  -V, --version         show program's version number and exit.\n"

/-- The text that names the program's version. -/
def versionText : String :=
  "+------------------------------+\n" ++
  "| TxSpector Detector v0.0.1     |\n" ++
  "| (c) The Ohio State University |\n" ++
  "+------------------------------+"

/-! ## 2. Taking the steps -/

/-- Why a file could not be opened. -/
def reason : Fault → String
  | .noSuchFile => "[Errno 2] No such file or directory"
  | .notAFolder => "[Errno 20] Not a directory"
  | .isAFolder => "[Errno 21] Is a directory"
  | .zeroInName => "embedded null byte"
  | _ => "[Errno 36] File name too long"

/-- Takes note of an option with its values. -/
def Request.give (r : Request) (values : List String) : Flag → Request
  | .help => r
  | .tsv => { r with tsv := some (values.headD "") }
  | .opcodes => { r with opcodes := values }
  | .verbose => { r with verbose := true }
  | .prolix => { r with prolix := true }
  | .noOutput => { r with noOutput := true }
  | .version => { r with version := true }

/-- Opens the input for reading; `-` is the standard input. -/
def openInput (d : Directory) : Option String → Except Refusal (Option (String × List String))
  | none | some "-" => .ok none
  | some path =>
    match d.find path with
    | .ok place => .ok (some (path, place))
    | .error e => .error (.cannotOpen "infile" path (reason e))

/-- Opens the output for writing, which empties it; `-` is the standard output. -/
def openOutput (d : Directory) : Option String → Except Refusal Directory
  | none | some "-" => .ok d
  | some path =>
    match d.write path "" with
    | .ok d => .ok d
    | .error e => .error (.cannotOpen "outfile" path (reason e))

/-- The end of a run whose command line is refused. -/
def refused (d : Directory) (why : Refusal) : Outcome :=
  { ending := .exit 2, log := usage ++ programName ++ ": error: " ++ why.message ++ "\n",
    directory := d }

/-- Takes the steps of a command line: the request they make up, or the end of the run. -/
def takeSteps (d : Directory) (r : Request) : List Step → Except Outcome (Request × Directory)
  | [] => if r.leftOver.isEmpty then .ok (r, d) else .error (refused d (.leftOver r.leftOver))
  | .refuse why :: _ => .error (refused d why)
  | .leave word :: rest => takeSteps d { r with leftOver := r.leftOver ++ [word] } rest
  | .give flag values :: rest =>
    if flag = .help then .error { ending := .exit 0, stdout := helpText, directory := d }
    else takeSteps d (r.give values flag) rest
  | .openFiles input output :: rest =>
    match openInput d input with
    | .error why => .error (refused d why)
    | .ok input =>
      match openOutput d output with
      | .error why => .error (refused d why)
      | .ok d => takeSteps d { r with input } rest

/-! ## 3. The work -/

/-- Messages of a run, which are logged only if the run is verbose. -/
def Request.log (r : Request) (messages : List String) : String :=
  if r.verbose || r.prolix then String.join (messages.map fun m => "INFO: " ++ m ++ "\n") else ""

/-- The lines of the input.  Standard input is split at line feeds only. -/
def Request.lines (r : Request) (d : Directory) (stdin : String) : List String :=
  Text.split '\n' (match r.input with
    | some (_, place) => Text.unifyNewlines (d.text place)
    | none => stdin)

/-- Carries out a request.  The text of a graph is made by a visitor that has no method for
graphs, so asking for it fails. -/
def Request.run (r : Request) (d : Directory) (stdin : String) : Outcome :=
  if r.version then { ending := .exit 1, directory := d }
  else
    let name := match r.input with
      | some (path, _) => path
      | none => "<stdin>"
    let messages := ["\n" ++ versionText, "Reading from '" ++ name ++ "'."]
    match Graph.ofLines (r.lines d stdin) with
    | .error e => { ending := .failure e, log := r.log messages, directory := d }
    | .ok g =>
      let messages := messages ++ ["Initial EFG generation completed."]
      if !r.noOutput then
        { ending := .failure (.noVisitMethod "TACGraph"),
          log := r.log (messages ++ ["Writing string output."]), directory := d }
      else
        match r.tsv with
        | none => { ending := .exit 0, log := r.log messages, directory := d }
        | some folder =>
          let (d, fault) := g.writeFacts d folder r.opcodes
          { ending := match fault with
              | some e => .failure e
              | none => .exit 0
            log := r.log (messages ++ ["Writing TSV output."]), directory := d }

/-- Whether a command line asks for the standard input to be read. -/
def readsStdin (words : List String) (d : Directory) : Bool :=
  match takeSteps d {} (steps words) with
  | .ok (r, _) => !r.version && r.input.isNone
  | .error _ => false

/-- A run of the program. -/
def run (words : List String) (stdin : String) (d : Directory) : Outcome :=
  match takeSteps d {} (steps words) with
  | .ok (r, d) => r.run d stdin
  | .error outcome => outcome

end TraceLift.CommandLine
