import RegistryBlock.Command.Word

/-!
# Options

What a command line asks for. Of several values of one option the last one counts. Help is given as
soon as it is asked for, whatever follows; otherwise every word has to mean something.
-/

namespace RegistryBlock.Command

structure Options where
  name : Option String := none
  folder : Option String := none
  output : Option String := none
  git : Bool := false
  init : Bool := false
  verbose : Bool := false
deriving DecidableEq, Repr

namespace Options

def enable (options : Options) : Switch → Options
  | .git => { options with git := true }
  | .init => { options with init := true }
  | .verbose => { options with verbose := true }
  | .help | .name | .folder | .output => options

def put (options : Options) (value : String) : Switch → Options
  | .name => { options with name := some value }
  | .folder => { options with folder := some value }
  | .output => { options with output := some value }
  | .help | .git | .init | .verbose => options

def enableAll (options : Options) (flags : List Switch) : Options := flags.foldl enable options

end Options

inductive Request where
  | help
  | run (options : Options)
deriving DecidableEq, Repr

namespace Request

/-- Reads words from left to right. `extra` are the ones so far that mean nothing. -/
def ofWords (options : Options) (extra : List String) : List Word → Except UsageError Request
  | [] => if extra.isEmpty then .ok (.run options) else .error (.unrecognized extra)
  | word :: words =>
    match word.request with
    | .error e => .error e
    | .ok (flags, ending) =>
      match ending, words with
      | .pending s, .operand value :: rest =>
        if .help ∈ flags then .ok .help
        else ofWords ((options.enableAll flags).put value s) extra rest
      | .pending s, _ => .error (.missingValue s)
      | .done, rest =>
        if .help ∈ flags then .ok .help else ofWords (options.enableAll flags) extra rest
      | .value s value, rest =>
        if .help ∈ flags then .ok .help
        else ofWords ((options.enableAll flags).put value s) extra rest
      | .rest text, rest =>
        if .help ∈ flags then .ok .help
        else ofWords (options.enableAll flags) (extra ++ [text]) rest

def ofArgs (args : List String) : Except UsageError Request :=
  match Word.ofStrings args with
  | .error e => .error e
  | .ok words => ofWords {} [] words

end Request

end RegistryBlock.Command
