import RegistryBlock.Project.Trace

/-!
# A new history

A reset takes the history of a project away, makes sure that it has an ignore file, and asks git
for a first commit of everything else.
-/

namespace RegistryBlock.History

/-- The ignore file of a project that has none. -/
def defaultIgnoreFile : String :=
"/node_modules
/.pnp
.pnp.*
.yarn/*
!.yarn/patches
!.yarn/plugins
!.yarn/releases
!.yarn/versions

# testing
/coverage

# next.js
/.next/
/out/

# production
/build

# misc
.DS_Store
*.pem

# debug
npm-debug.log*
yarn-debug.log*
yarn-error.log*

# env files (can opt-in for committing if needed)
.env*

# vercel
.vercel

# typescript
*.tsbuildinfo
next-env.d.ts
"

def ignoreFileChange? (tree : Tree) (repo : Location) : Except Failure (Option Change) :=
  let file := repo.child ".gitignore"
  if tree.holds file then .ok none
  else
    match tree.writable (.ofLocation file) with
    | .ok loc => .ok (some (.write loc defaultIgnoreFile))
    | .error fault => .error (.storage fault file.text)

def historyChange? (tree : Tree) (repo : Location) : Except Failure (Option Change) :=
  let history := repo.child ".git"
  if tree.holds history then
    if tree.isDirAt history then .ok (some (.erase history))
    else .error (.storage .notDirectory history.text)
  else .ok none

/-- The changes that prepare a directory for its new history, and what stopped them if not all of
them could be made. -/
def preparation (tree : Tree) (repo : Location) : List Change × Except Failure Unit :=
  match historyChange? tree repo with
  | .error failure => ([], .error failure)
  | .ok change =>
    match ignoreFileChange? (Change.applyAll tree change.toList) repo with
    | .error failure => (change.toList, .error failure)
    | .ok ignore => (change.toList ++ ignore.toList, .ok ())

/-- The variables with a value for the given name, which is the old one if there is one. -/
def setDefault (environment : List (String × String)) (name value : String) :
    List (String × String) :=
  if (environment.lookup name).isSome then environment else environment ++ [(name, value)]

/-- The variables with an author and a committer, who is the author unless someone else is named. -/
def signed (environment : List (String × String)) : List (String × String) :=
  let environment := setDefault environment "GIT_AUTHOR_NAME" "blockgen"
  let environment := setDefault environment "GIT_AUTHOR_EMAIL" "blockgen@example.com"
  let environment := setDefault environment "GIT_COMMITTER_NAME"
    ((environment.lookup "GIT_AUTHOR_NAME").getD "")
  setDefault environment "GIT_COMMITTER_EMAIL" ((environment.lookup "GIT_AUTHOR_EMAIL").getD "")

def commitCalls (repo : Location) (environment : List (String × String)) : List Git.Call :=
  [ { args := ["git", "init"], directory := repo, capture := false },
    { args := ["git", "add", "."], directory := repo, capture := false },
    { args := ["git", "commit", "-m", "Initial commit"], directory := repo, capture := false,
      environment := some (signed environment) } ]

/-- Makes some calls and drops what they print. -/
def callAll (git : Git) : List Git.Call → RunM Unit
  | [] => return
  | c :: rest => do
    let _ ← RunM.call git c
    callAll git rest

/-- Starts the history of the directory at a path anew: the changes of the file tree, which are
made before git is called, and the run. A home directory at the front of the path is written out
already. -/
def reset (git : Git) (environment : List (String × String)) (tree : Tree) (path : WrittenPath) :
    List Change × RunM Unit :=
  let repo := path.resolve .root
  let (changes, prepared) := preparation tree repo
  (changes, do
    RunM.ofExcept prepared
    callAll git (commitCalls repo environment)
    RunM.log "git" .info ("Initialized baseline commit in " ++ repo.text))

end RegistryBlock.History
