import RegistryBlock.Command.Usage
import RegistryBlock.Text.Digit
import RegistryBlock.Text.Quoted

/-!
# Words of a command line

Each word is looked at by itself before any of them takes effect. A word names options, stands for
itself as an operand, or is the separator `--`, behind which there are only operands. Long spellings
may be cut short as long as one option is left that they can mean.
-/

namespace RegistryBlock.Command

/-- Why a command line cannot be used. -/
inductive UsageError where
  /-- A cut spelling fits several options. -/
  | ambiguous (word : String) (fits : List Switch)
  /-- The value of an option is missing. -/
  | missingValue (s : Switch)
  /-- An option without value has text attached to it. -/
  | attached (s : Switch) (text : String)
  /-- Some words have no meaning. -/
  | unrecognized (words : List String)
deriving DecidableEq, Repr

def UsageError.message : UsageError → String
  | ambiguous word fits =>
    "ambiguous option: " ++ word ++ " could match " ++ ", ".intercalate (fits.map Switch.long)
  | missingValue s => "argument " ++ s.spellings ++ ": expected one argument"
  | attached s text =>
    "argument " ++ s.spellings ++ ": ignored explicit argument " ++ Text.quoted text
  | unrecognized words => "unrecognized arguments: " ++ " ".intercalate words

inductive Word where
  /-- The word `--`. -/
  | separator
  | operand (text : String)
  /-- It looks like an option and is none. -/
  | unknown (text : String)
  /-- A letter behind a single hyphen, and the rest of the word. -/
  | short (s : Switch) (rest : List Char)
  /-- A long spelling, and the text behind `=` if there is one. -/
  | long (s : Switch) (value : Option String)
deriving DecidableEq, Repr

namespace Word

/-- Whether a text is a hyphen with a number behind it. A line feed may follow. -/
def isNegative (cs : List Char) : Bool :=
  match cs with
  | '-' :: rest =>
    let body := if rest.getLast? = some '\n' then rest.dropLast else rest
    match Text.cutAt '.' body with
    | (whole, none) => !whole.isEmpty && whole.all Text.isDigit
    | (whole, some places) =>
      whole.all Text.isDigit && !places.isEmpty && places.all Text.isDigit
  | _ => false

def unnamed (word : String) : Word :=
  if isNegative word.toList || word.toList.contains ' ' then operand word else unknown word

/-- The options whose long spelling begins in the given way. -/
def fits (start : List Char) : List Switch :=
  Switch.all.filter fun s => Text.startsWith start s.long.toList

/-- A word that begins with two hyphens. -/
def ofLong (word : String) : Except UsageError Word :=
  let (start, value) := Text.cutAt '=' word.toList
  let value := value.map String.ofList
  match Switch.ofLong? (String.ofList start), fits start with
  | some s, _ => .ok (long s value)
  | none, [s] => .ok (long s value)
  | none, [] => .ok (unnamed word)
  | none, several => .error (.ambiguous word several)

/-- Reads a word in front of the separator. -/
def ofString (word : String) : Except UsageError Word :=
  match word.toList with
  | ['-', '-'] => .ok separator
  | '-' :: '-' :: _ => ofLong word
  | '-' :: c :: rest =>
    match Switch.ofLetter? c with
    | some s => .ok (short s rest)
    | none => .ok (unnamed word)
  | _ => .ok (operand word)

def ofStrings : List String → Except UsageError (List Word)
  | [] => .ok []
  | word :: rest =>
    match ofString word with
    | .error e => .error e
    | .ok separator => .ok (separator :: rest.map operand)
    | .ok w => (ofStrings rest).map (w :: ·)

/-- How the options in a word end. -/
inductive Ending where
  | done
  /-- The last option has its value. -/
  | value (s : Switch) (text : String)
  /-- The value of the last option is to follow. -/
  | pending (s : Switch)
  /-- The rest of the word is no option. -/
  | rest (text : String)
deriving DecidableEq, Repr

def letters (s : Switch) : List Char → Except UsageError (List Switch × Ending)
  | [] => .ok (if s.takesValue then ([], .pending s) else ([s], .done))
  | c :: rest =>
    if s.takesValue then .ok ([], .value s (String.ofList (if c = '=' then rest else c :: rest)))
    else if c = '=' then .error (.attached s (String.ofList rest))
    else if c = '-' then .error (.attached s (String.ofList (c :: rest)))
    else
      match Switch.ofLetter? c with
      | some next => (letters next rest).map fun (flags, ending) => (s :: flags, ending)
      | none => .ok ([s], .rest (String.ofList ('-' :: c :: rest)))

def request : Word → Except UsageError (List Switch × Ending)
  | separator => .ok ([], .rest "--")
  | operand text => .ok ([], .rest text)
  | unknown text => .ok ([], .rest text)
  | short s rest => letters s rest
  | long s none => letters s []
  | long s (some text) =>
    if s.takesValue then .ok ([], .value s text) else .error (.attached s text)

end Word

end RegistryBlock.Command
