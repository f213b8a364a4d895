import RegistryBlock.Command.Options
import RegistryBlock.History.Reset
import RegistryBlock.Journal.Logbook
import RegistryBlock.Project.Build

/-!
# Running a command line

A run sees the file tree, the directory it is started in, git and the environment. It leaves an
exit status, what it printed, and the changes that it makes to the tree. Standard output carries
the block and nothing else; everything a run says about itself goes to standard error.
-/

namespace RegistryBlock.Command

/-- What a run finds. -/
structure Host where
  tree : Tree
  directory : Location
  git : Git := .none
  yaml : Yaml.Reader := Yaml.reader
  environment : List (String × String) := []

/-- How a run stops. -/
inductive Stop where
  | exit (code : Nat)
  /-- A failure that the program does not handle. -/
  | raised (failure : Failure)
deriving DecidableEq, Repr

/-- What a run leaves. -/
structure Outcome where
  stop : Stop := .exit 0
  stdout : String := ""
  stderr : String := ""
  changes : List Change := []
deriving DecidableEq, Repr

def UsageError.outcome (e : UsageError) : Outcome :=
  { stop := .exit 2, stderr := usage ++ "blockgen: error: " ++ e.message ++ "\n" }

def consoleText (options : Options) (records : List Journal.Record) : String :=
  (((Journal.Logbook.ofSetup { verbose := options.verbose }).logAll "" records)).console

def restart (host : Host) (options : Options) : Outcome :=
  let (changes, run) :=
    History.reset host.git host.environment host.tree (.ofLocation host.directory)
  let (result, trace) := run.finish
  let said := consoleText options trace.records
  match result with
  | .ok () => { stderr := said, changes }
  | .error (.git e) =>
    { stop := .exit 1, stderr := said ++ "blockgen --init failed: " ++ e.message ++ "\n", changes }
  | .error failure => { stop := .raised failure, stderr := said, changes }

/-- What a run says when it gives up, if it handles the failure. -/
def farewell? (failure : Failure) : Option String :=
  match failure with
  | .settings _ | .manifest _ | .git _ =>
    some ("blockgen failed: " ++ failure.message ++ "\nRun with --verbose for more details.\n")
  | .path _ | .storage .missing _ | .storage .notDirectory _ => some (failure.message ++ "\n")
  | .storage .isDirectory _ | .storage .undecodable _ | .scalar => none

/-- The file that the block is written to: the one that is asked for, else that of the settings. -/
def outputFor (host : Host) (options : Options) : Except Failure (Option WrittenPath) :=
  match options.output.filter (· ≠ "") with
  | some path => .ok (some (.ofString path))
  | none => (Settings.load host.tree (.ofLocation host.directory) host.yaml).map Settings.output

def Options.order (options : Options) : Order :=
  { name := options.name, folder := options.folder, altered := options.git }

def prepare (host : Host) (options : Options) : RunM (Block × Option WrittenPath) := do
  let block ← build host.git host.tree (.ofLocation host.directory) options.order host.yaml
  return (block, ← RunM.ofExcept (outputFor host options))

/-- A path as it is shown to someone in a directory: the way to it from there, if it is below. -/
def shown (directory : Location) (path : WrittenPath) : String :=
  match directory.below? (path.resolve directory) with
  | some names => Location.relativeText names
  | none => path.text

def payload (block : Block) : String := block.render (.lines 2) ++ "\n"

def deliver (host : Host) (said : String) (block : Block) : Option WrittenPath → Outcome
  | none => { stdout := payload block, stderr := said }
  | some path =>
    let full := (WrittenPath.ofLocation host.directory).append path
    match host.tree.writable full with
    | .ok loc =>
      { stderr := said ++ "Registry block written to " ++ shown host.directory path ++ "\n"
        changes := [.write loc (payload block)] }
    | .error fault => { stop := .raised (.storage fault full.text), stderr := said }

def produce (host : Host) (options : Options) : Outcome :=
  let (result, trace) := (prepare host options).finish
  let said := consoleText options trace.records
  match result with
  | .ok (block, output) => deliver host said block output
  | .error failure =>
    match farewell? failure with
    | some words => { stop := .exit 1, stderr := said ++ words }
    | none => { stop := .raised failure, stderr := said }

def Request.outcome (host : Host) : Request → Outcome
  | .help => { stdout := helpText }
  | .run options => if options.init then restart host options else produce host options

def run (host : Host) (args : List String) : Outcome :=
  match Request.ofArgs args with
  | .ok request => request.outcome host
  | .error e => e.outcome

end RegistryBlock.Command
