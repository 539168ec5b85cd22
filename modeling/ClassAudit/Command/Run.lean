import ClassAudit.Command.Options
import ClassAudit.Sarif
import ClassAudit.Trace

/-!
# Running the command

A run works on a file tree and leaves one behind: it checks that the input and the
class path are there, scans them, opens the output, and writes either a trace or a
report. What goes to a file, to standard output and to standard error is part of the
outcome.
-/

namespace ClassAudit.Command

/-- Why a run fails, as messages from the outermost to the first cause. -/
structure Failure where
  message : String
  causes : List String
  deriving DecidableEq, Repr

namespace Failure

def ofChain : List String → Failure
  | [] => ⟨"", []⟩
  | message :: causes => ⟨message, causes⟩

/-- A cause behind its label. Further lines of it start in the same column as the
first. -/
def labelled (label cause : String) : String :=
  label ++ ("\n".pushn ' ' label.length).intercalate (cause.splitOn "\n") ++ "\n"

/-- A failure as standard error shows it. Several causes are numbered. -/
def render (failure : Failure) : String :=
  let lines := match failure.causes with
    | [] => []
    | [cause] => [labelled "    " cause]
    | causes =>
      causes.mapIdx fun index cause =>
        labelled ("    " ++ toString index ++ ": ") cause
  "Error: " ++ failure.message ++ "\n"
    ++ (if lines.isEmpty then "" else "\nCaused by:\n" ++ String.join lines)

end Failure

/-- What a run is about to analyse. -/
structure Prepared where
  rules : List Rule
  scan : Scan

/-- Checks what was asked for, and scans. -/
def prepare (tree : FileTree) (options : Options) : Except Failure Prepared := do
  if !tree.has options.input then
    throw ⟨"input not found: " ++ options.input, []⟩
  match options.classpath.find? fun entry => !tree.has entry with
  | some entry => throw ⟨"classpath entry not found: " ++ entry, []⟩
  | none =>
    let rules ← (Rule.select options.rules).mapError fun error => ⟨error.message, []⟩
    let scan ← (Scan.ofPaths tree options.input options.classpath).mapError
      fun error => .ofChain error.chain
    return ⟨rules, scan⟩

/-- Where a run writes to: standard output, or a file. -/
inductive Output
  | standard
  | file (path : String)
  deriving DecidableEq, Repr

/-- The output that options name; `-` stands for standard output. -/
def Output.ofOptions (options : Options) : Output :=
  match options.output with
  | none => .standard
  | some path =>
    if Path.comparable path = ["-"] && !path.startsWith "/" then .standard
    else .file path

/-- The counts that a timing line shows. -/
structure Counts where
  classes : Nat
  artifacts : Nat
  findings : Nat
  asked : Nat
  deriving DecidableEq, Repr

/-- The timing line, with the times in milliseconds as text. -/
def Counts.timingLine (counts : Counts) (total scan analysis : String) : String :=
  "timing: total_ms=" ++ total ++ " scan_ms=" ++ scan ++ " analysis_ms=" ++ analysis
    ++ " classes=" ++ toString counts.classes
    ++ " artifacts=" ++ toString counts.artifacts
    ++ " results=" ++ toString counts.findings
    ++ " resolutions=" ++ toString counts.asked ++ "\n"

/-- What a run that got as far as its output writes there, how it ends, and what to
count if times are asked for. -/
structure Written where
  text : String
  ending : Except Failure Unit
  counts : Option Counts

/-- The classes of a scan, ready for analysis. -/
def program (scan : Scan) : Program := ⟨scan.classes.toList, scan.libraries.toList⟩

/-- Writes the trace of the methods with a name. Finding none is a failure. -/
def writeTrace (prepared : Prepared) (name : String) : Written :=
  match (program prepared.scan).trace name (.bounded none) "" with
  | (.ok 0, text) =>
    ⟨text, .error ⟨"no method named " ++ name ++ " in the input", []⟩, none⟩
  | (.ok _, text) => ⟨text, .ok (), none⟩
  | (.error error, text) => ⟨text, .error ⟨error.message, []⟩, none⟩

/-- Writes the report of an analysis. -/
def writeReport (prepared : Prepared) (arguments : List String) (options : Options) :
    Written :=
  let scan := prepared.scan
  let report := (program scan).analyze prepared.rules
  let document :=
    Sarif.report scan.artifacts.toList arguments prepared.rules report.findings
  let counts : Counts :=
    ⟨scan.classCount, scan.artifacts.size, report.findings.length, report.asked⟩
  ⟨document.pretty ++ "\n", .ok (),
    if options.timing && !options.quiet then some counts else none⟩

/-- Writes what was asked for. -/
def write (prepared : Prepared) (arguments : List String) (options : Options) :
    Written :=
  match options.traceMethod with
  | some name => writeTrace prepared name
  | none => writeReport prepared arguments options

/-- Everything a run leaves behind. -/
structure Outcome where
  code : Nat
  standardOutput : String
  standardError : String
  counts : Option Counts
  tree : FileTree

/-- The outcome of a failure that leaves the tree as it was. -/
def Outcome.ofFailure (tree : FileTree) (failure : Failure) : Outcome :=
  ⟨1, "", failure.render, none, tree⟩

/-- The outcome of a run with the given text written to its output. -/
def finish (tree : FileTree) (output : Output) (written : Written) : Outcome :=
  let (code, standardError) := match written.ending with
    | .ok () => (0, "")
    | .error failure => (1, failure.render)
  match output with
  | .standard => ⟨code, written.text, standardError, written.counts, tree⟩
  | .file path =>
    match tree.write path written.text.toUTF8 with
    | .ok tree => ⟨code, "", standardError, written.counts, tree⟩
    | .error cause => .ofFailure tree ⟨"failed to open " ++ path, [cause.message]⟩

/-- Runs with options that have been read. The output is opened once the scan has
succeeded. -/
def runOptions (tree : FileTree) (arguments : List String) (options : Options) :
    Outcome :=
  match prepare tree options with
  | .error failure => .ofFailure tree failure
  | .ok prepared => finish tree (.ofOptions options) (write prepared arguments options)

/-- How the command is used. -/
def usage : String := "Usage: " ++ toolName ++ " [OPTIONS] --input <PATH>\n\n"

/-- What arguments that do not fit are answered with. -/
def misuse : String :=
  "error: unusable arguments\n\n" ++ usage ++ "For more information, try '--help'.\n"

/-- What asking for help shows. -/
def help : String :=
  "Operand-stack and class-hierarchy analysis of JVM class files and JAR files, "
    ++ "reported as SARIF.\n\n"
    ++ usage
    ++ "Options:\n"
    ++ "      --input <PATH>\n"
    ++ "      --classpath <PATH>\n"
    ++ "      --output <PATH>\n"
    ++ "      --quiet\n"
    ++ "      --timing\n"
    ++ "      --rule <ID>            Run only the rule with this id; repeat to select "
    ++ "several\n"
    ++ "      --trace-method <NAME>  Print the operand stack before each instruction "
    ++ "of methods with this name as JSON lines instead of SARIF\n"
    ++ "  -h, --help                 Print help\n"
    ++ "  -V, --version              Print version\n"

/-- Runs with the given arguments in the given tree. -/
def run (tree : FileTree) (arguments : List String) : Outcome :=
  match Options.parse arguments with
  | .error .version => ⟨0, toolName ++ " " ++ toolVersion ++ "\n", "", none, tree⟩
  | .error .help => ⟨0, help, "", none, tree⟩
  | .error .misused => ⟨2, "", misuse, none, tree⟩
  | .ok options => runOptions tree arguments options

end ClassAudit.Command
