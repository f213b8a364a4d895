import RegistryBlock.Project.Trace

/-!
# Runs from a trace

A run is followed from the trace it finds. Each operation has one lemma that says what it returns
and what it adds to the trace.
-/

namespace RegistryBlock.RunM

variable {α β : Type}

def runFrom (run : RunM α) (trace : Trace) : Except Failure α × Trace :=
  Id.run (StateT.run run trace)

theorem finish_eq (run : RunM α) : run.finish = run.runFrom {} := rfl

/-- The first run decides whether there is a second one. -/
theorem runFrom_bind (run : RunM α) (next : α → RunM β) (trace : Trace) :
    (run >>= next).runFrom trace =
      match run.runFrom trace with
      | (.ok a, later) => (next a).runFrom later
      | (.error failure, later) => (.error failure, later) := by
  have hbind : (run >>= next).runFrom trace =
      (match run.runFrom trace with | (result, later) => (ExceptT.bindCont next result) later) :=
    rfl
  rw [hbind]
  rcases run.runFrom trace with ⟨failure | a, later⟩ <;> rfl

/-- What the second run returns comes from what the first one returned and left. -/
theorem exists_of_runFrom_bind_eq_ok {run : RunM α} {next : α → RunM β} {trace : Trace} {b : β}
    (h : ((run >>= next).runFrom trace).1 = .ok b) :
    ∃ a later, run.runFrom trace = (.ok a, later) ∧ ((next a).runFrom later).1 = .ok b := by
  rw [runFrom_bind] at h
  rcases hrun : run.runFrom trace with ⟨failure | a, later⟩
  · rw [hrun] at h
    cases h
  · rw [hrun] at h
    exact ⟨a, later, rfl, h⟩

/-- A failure is that of the first run, or of the second one after the first. -/
theorem cases_of_runFrom_bind_eq_error {run : RunM α} {next : α → RunM β} {trace last : Trace}
    {failure : Failure} (h : (run >>= next).runFrom trace = (.error failure, last)) :
    run.runFrom trace = (.error failure, last) ∨
      ∃ a later, run.runFrom trace = (.ok a, later) ∧
        (next a).runFrom later = (.error failure, last) := by
  rw [runFrom_bind] at h
  rcases hrun : run.runFrom trace with ⟨other | a, later⟩
  · rw [hrun] at h
    cases h
    exact Or.inl rfl
  · rw [hrun] at h
    exact Or.inr ⟨a, later, rfl, h⟩

@[simp] theorem runFrom_pure (a : α) (trace : Trace) :
    (pure a : RunM α).runFrom trace = (.ok a, trace) := rfl

@[simp] theorem runFrom_ofExcept (result : Except Failure α) (trace : Trace) :
    (ofExcept result).runFrom trace = (result, trace) := by
  cases result <;> rfl

theorem runFrom_log (area : String) (level : Journal.Level) (message : String) (trace : Trace) :
    (log area level message).runFrom trace =
      (.ok (), { trace with records := trace.records ++ [⟨some area, level, message⟩] }) := rfl

/-- Going through some items and writing a record for each adds these records. -/
theorem runFrom_forIn_log (area : String) (level : Journal.Level) (message : α → String)
    (items : List α) (trace : Trace) :
    (forIn (m := RunM) items PUnit.unit fun item _ => do
        log area level (message item)
        pure (ForInStep.yield PUnit.unit)).runFrom trace =
      (.ok PUnit.unit, { trace with
        records := trace.records ++ items.map fun item => ⟨some area, level, message item⟩ }) := by
  induction items generalizing trace with
  | nil => simp [runFrom_pure]
  | cons item items ih =>
    rw [List.forIn_cons]
    simp only [runFrom_bind, runFrom_log, runFrom_pure]
    rw [ih, List.map_cons, List.append_assoc, List.singleton_append]

end RegistryBlock.RunM
