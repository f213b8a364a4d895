/-!
# Log records

What a run has to say about itself while it works. A record names the part of the program that
wrote it, except for records of the program as a whole.
-/

namespace RegistryBlock.Journal

/-- How important a record is. Every whole number is a level; some of them have a name. -/
structure Level where
  rank : Int
deriving DecidableEq, Repr

namespace Level

def debug : Level := ⟨10⟩
def info : Level := ⟨20⟩
def warning : Level := ⟨30⟩
def error : Level := ⟨40⟩
def critical : Level := ⟨50⟩

def named : List (Level × String) :=
  [(⟨0⟩, "NOTSET"), (debug, "DEBUG"), (info, "INFO"), (warning, "WARNING"), (error, "ERROR"),
    (critical, "CRITICAL")]

def all : List Level := named.map Prod.fst

def name (level : Level) : String :=
  (named.lookup level).getD ("Level " ++ toString level.rank)

end Level

/-- One message with its level and the part of the program that wrote it. -/
structure Record where
  area : Option String
  level : Level
  message : String
deriving DecidableEq, Repr

end RegistryBlock.Journal
