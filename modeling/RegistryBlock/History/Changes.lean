import RegistryBlock.Project.Trace
import RegistryBlock.Source
import RegistryBlock.Text.Blank

/-!
# Changes since the first commit

A file is altered if the first commit of the repository does not have it, or has it with another
text. Git is asked for the commit, then for its files, then for the text of each file that it has.
-/

namespace RegistryBlock.History

def repository (tree : Tree) (path : WrittenPath) : Except Git.Error Location :=
  let loc := path.resolve .root
  if tree.holds (loc.child ".git") then .ok loc else .error (.noRepository path.text)

/-- The lines of an output that are not blank, trimmed. -/
def commits (output : String) : List String :=
  ((Text.lines output.toList).map Text.trim).filterMap fun line =>
    if line.isEmpty then none else some (String.ofList line)

/-- The call for the commits without parents, newest first. -/
def rootsCall (repo : Location) : Git.Call :=
  { args := ["git", "rev-list", "--max-parents=0", "HEAD"], directory := repo }

def listingCall (repo : Location) (commit : String) : Git.Call :=
  { args := ["git", "ls-tree", "-r", "-z", "--name-only", commit], directory := repo }

def textCall (repo : Location) (commit key : String) : Git.Call :=
  { args := ["git", "show", commit ++ ":" ++ key], directory := repo }

def ofGit {α : Type} : Except Git.Error α → RunM α
  | .ok a => pure a
  | .error e => throw (.git e)

/-- The oldest commit without parents. -/
def firstCommit (git : Git) (repo : Location) : RunM String := do
  match (commits (← RunM.call git (rootsCall repo))).getLast? with
  | some commit => return commit
  | none => throw (.git (.noCommits repo))

def initialCommit (git : Git) (tree : Tree) (path : WrittenPath) : RunM String := do
  firstCommit git (← ofGit (repository tree path))

/-- The paths in a listing, each followed by a NUL. -/
def tracked (listing : String) : List String :=
  ((Text.split '\x00' listing.toList).map String.ofList).filter (· ≠ "")

def isAltered (git : Git) (repo : Location) (commit : String) (paths : List String)
    (file : SourceFile) : RunM Bool := do
  if paths.contains file.key then
    return (← RunM.call git (textCall repo commit file.key)) ≠ file.content
  else return true

def alteredSince (git : Git) (repo : Location) (commit : String) (paths : List String) :
    List SourceFile → RunM (List SourceFile)
  | [] => return []
  | file :: rest => do
    let altered ← isAltered git repo commit paths file
    let more ← alteredSince git repo commit paths rest
    return if altered then file :: more else more

/-- The files that are altered since the first commit of the repository at a path. -/
def alteredFiles (git : Git) (tree : Tree) (path : WrittenPath) (files : List SourceFile) :
    RunM (List SourceFile) := do
  let repo ← ofGit (repository tree path)
  let commit ← firstCommit git repo
  let paths := tracked (← RunM.call git (listingCall repo commit))
  let altered ← alteredSince git repo commit paths files
  RunM.log "git" .info ("Found " ++ toString altered.length ++ " files changed since " ++
    String.ofList (commit.toList.take 12))
  return altered

end RegistryBlock.History
