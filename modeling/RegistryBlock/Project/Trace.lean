import RegistryBlock.Journal.Record
import RegistryBlock.Project.Failure

/-!
# Runs

A run may fail, and whether or not it does, it leaves a trace: the calls of git and the records of
the log, both in order.
-/

namespace RegistryBlock

/-- What a run leaves behind. -/
structure Trace where
  calls : List Git.Call := []
  records : List Journal.Record := []
deriving DecidableEq, Repr

/-- A computation that leaves a trace and may fail. -/
abbrev RunM := ExceptT Failure (StateM Trace)

namespace RunM

def log (area : String) (level : Journal.Level) (message : String) : RunM Unit :=
  modify fun trace =>
    { trace with records := trace.records ++ [⟨some area, level, message⟩] }

def logAll (records : List Journal.Record) : RunM Unit :=
  modify fun trace => { trace with records := trace.records ++ records }

def ofExcept {α : Type} : Except Failure α → RunM α
  | .ok a => pure a
  | .error failure => throw failure

/-- Makes a call of git. The call is on the trace before the reply comes. -/
def call (git : Git) (c : Git.Call) : RunM String := do
  let earlier := (← get).calls
  modify fun trace => { trace with calls := trace.calls ++ [c] }
  match git.reply earlier c with
  | .absent => throw (.git .absent)
  | .failed code => throw (.git (.failed c.args code))
  | .printed text => return text

def finish {α : Type} (run : RunM α) : Except Failure α × Trace := Id.run (StateT.run run {})

end RunM

end RegistryBlock
