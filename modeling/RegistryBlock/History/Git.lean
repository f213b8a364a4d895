import RegistryBlock.Path.Location
import RegistryBlock.Text.Lines

/-!
# Git as a partner

What git does is outside the program: it is given by its replies to the calls made so far and the
one at hand. Everything that the program asks of git is a `Call`.
-/

namespace RegistryBlock

namespace Git

/-- A command with the directory it runs in. The environment is given only where it matters. -/
structure Call where
  args : List String
  directory : Location
  capture : Bool := true
  environment : Option (List (String × String)) := none
deriving DecidableEq, Repr

inductive Reply where
  /-- There is no git. -/
  | absent
  /-- The command failed. -/
  | failed (code : Int)
  /-- The command succeeded and printed a text. -/
  | printed (text : String)
deriving DecidableEq, Repr

inductive Error where
  | absent
  | failed (args : List String) (code : Int)
  | noRepository (path : String)
  | noCommits (repository : Location)
deriving DecidableEq, Repr

def Error.message : Error → String
  | absent => "git executable not found"
  | failed args code => " ".intercalate args ++ " failed with exit code " ++ toString code
  | noRepository path => path ++ " is not a Git repository"
  | noCommits repository => repository.text ++ " has no commits"

end Git

/-- How git replies to a call after some earlier ones. -/
structure Git where
  reply : List Git.Call → Git.Call → Git.Reply

namespace Git

def none : Git := ⟨fun _ _ => .absent⟩

/-- The text of a reply with every line ended by a line feed. -/
def Reply.unifyNewlines : Reply → Reply
  | printed text => .printed (String.ofList (Text.unifyNewlines text.toList))
  | other => other

/-- The same git, whose output is read as lines of text. -/
def readingLines (git : Git) : Git := ⟨fun calls call => (git.reply calls call).unifyNewlines⟩

end Git

end RegistryBlock
