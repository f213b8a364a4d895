import RegistryBlock.Journal.Record

/-!
# The logbook

Records go to the console, and on request to a file as well. A new setup takes the place of the one
before it; what has been written stays.
-/

namespace RegistryBlock.Journal

inductive Form where
  /-- The message alone. -/
  | bare
  /-- The level and the message. -/
  | plain
  /-- The area, the level and the message. -/
  | staged
  /-- The time, the level, the full name of the area and the message. -/
  | dated
deriving DecidableEq, Repr

def programName : String := "blockgen"

namespace Record

/-- The area in short. Records of the program as a whole bear its own name. -/
def place (r : Record) : String := (r.area.filter (· ≠ "")).getD programName

/-- The area with the name of the program in front. -/
def fullPlace (r : Record) : String :=
  match r.area.filter (· ≠ "") with
  | some area => programName ++ "." ++ area
  | none => programName

def line (time : String) (r : Record) : Form → String
  | .bare => r.message ++ "\n"
  | .plain => programName ++ ": " ++ r.level.name ++ ": " ++ r.message ++ "\n"
  | .staged =>
    programName ++ "[" ++ r.place ++ "]: " ++ r.level.name ++ ": " ++ r.message ++ "\n"
  | .dated => time ++ " " ++ r.level.name ++ " " ++ r.fullPlace ++ ": " ++ r.message ++ "\n"

end Record

/-- How much is written, and whether a file gets it too. -/
structure Setup where
  verbose : Bool := false
  file : Option String := none
deriving DecidableEq, Repr

namespace Setup

def threshold (setup : Setup) : Level := if setup.verbose then .debug else .info

def form (setup : Setup) : Form := if setup.verbose then .staged else .plain

end Setup

inductive Target where
  | console
  | file (name : String)
deriving DecidableEq, Repr

/-- Writes records of some level and above in one form to one place. -/
structure Handler where
  target : Target
  threshold : Level
  form : Form
deriving DecidableEq, Repr

def Setup.handlers (setup : Setup) : List Handler :=
  ⟨.console, setup.threshold, setup.form⟩ ::
    (setup.file.map fun name => ⟨.file name, setup.threshold, .dated⟩).toList

/-- Shows warnings as they are, where there is no other handler. -/
def Handler.lastResort : Handler := ⟨.console, .warning, .bare⟩

/-- Who gets the records, and all that was written so far. A record below the threshold is dropped
before any handler sees it. The others go to the handlers, and if they are passed on to the outer
ones as well, which belong to whoever runs the program. -/
structure Logbook where
  threshold : Level := .warning
  handlers : List Handler := []
  outer : List Handler := []
  passesOn : Bool := true
  console : String := ""
  files : List (String × String) := []
deriving DecidableEq, Repr

namespace Logbook

/-- Text added at the end of a file, which is made if it is not there. -/
def addTo (name text : String) : List (String × String) → List (String × String)
  | [] => [(name, text)]
  | (other, old) :: rest =>
    if other = name then (other, old ++ text) :: rest else (other, old) :: addTo name text rest

def file? (book : Logbook) (name : String) : Option String := book.files.lookup name

def write (book : Logbook) (text : String) : Target → Logbook
  | .console => { book with console := book.console ++ text }
  | .file name => { book with files := addTo name text book.files }

def remove (book : Logbook) (h : Handler) : Logbook :=
  { book with handlers := book.handlers.erase h }

/-- Adds a handler. The file that it writes to is made at once. -/
def add (book : Logbook) (h : Handler) : Logbook :=
  { book.write "" h.target with handlers := book.handlers ++ [h] }

/-- Takes a new setup: the handlers of now are taken away one by one, and those of the setup are
added. From then on no record is passed on. -/
def configure (book : Logbook) (setup : Setup) : Logbook :=
  let book := { book with threshold := setup.threshold, passesOn := false }
  setup.handlers.foldl add (book.handlers.foldl remove book)

def handle (book : Logbook) (time : String) (r : Record) (h : Handler) : Logbook :=
  if h.threshold.rank ≤ r.level.rank then book.write (r.line time h.form) h.target else book

def receivers (book : Logbook) : List Handler :=
  let found := book.handlers ++ if book.passesOn then book.outer else []
  if found.isEmpty then [.lastResort] else found

def log (book : Logbook) (time : String) (r : Record) : Logbook :=
  if book.threshold.rank ≤ r.level.rank then
    book.receivers.foldl (fun b h => b.handle time r h) book
  else book

def logAll (book : Logbook) (time : String) (records : List Record) : Logbook :=
  records.foldl (fun b r => b.log time r) book

def ofSetup (setup : Setup) : Logbook := ({} : Logbook).configure setup

end Logbook

end RegistryBlock.Journal
