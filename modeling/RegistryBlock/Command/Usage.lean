/-!
# Usage

The options of the program with their spellings, and the texts that explain them.
-/

namespace RegistryBlock.Command

inductive Switch where
  | help
  | name
  | folder
  | git
  | init
  | output
  | verbose
deriving DecidableEq, Repr

namespace Switch

def all : List Switch := [help, name, folder, git, init, output, verbose]

def letter? : Switch → Option Char
  | help => some 'h'
  | name => some 'n'
  | folder => some 'f'
  | output => some 'o'
  | verbose => some 'v'
  | git | init => none

def word : Switch → String
  | help => "help"
  | name => "name"
  | folder => "folder"
  | git => "git"
  | init => "init"
  | output => "output"
  | verbose => "verbose"

def long (s : Switch) : String := "--" ++ s.word

def spellings (s : Switch) : String :=
  match s.letter? with
  | some c => String.ofList ['-', c] ++ "/" ++ s.long
  | none => s.long

def takesValue : Switch → Bool
  | name | folder | output => true
  | help | git | init | verbose => false

def ofLetter? (c : Char) : Option Switch := all.find? (·.letter? == some c)

def ofLong? (spelling : String) : Option Switch := all.find? (·.long == spelling)

end Switch

def usage : String :=
  "usage: blockgen [-h] [-n NAME] [-f FOLDER] [--git] [--init] [-o OUTPUT] [-v]\n"

def helpText : String :=
  usage ++
"
Package changed project files into a registry:block JSON document.

options:
  -h, --help            show this help message and exit
  -n NAME, --name NAME  Block name (defaults to the folder or project
                        directory name).
  -f FOLDER, --folder FOLDER
                        Folder whose files seed the block (default: current
                        directory).
  --git                 Seed the block with files changed since the initial
                        commit.
  --init                Reset git history to a single initial commit and exit.
  -o OUTPUT, --output OUTPUT
                        Write the block JSON to this file instead of stdout.
  -v, --verbose         Increase log verbosity for troubleshooting.
"

end RegistryBlock.Command
