import RegistryBlock.Proofs.History.Calls

/-!
# The log is not read

A run writes to the log and reads from the trace the calls at most, which git has to answer. A run
that makes no calls is quiet: it returns the same from every trace. So a run that is put together
returns what its parts return, and the records between them play no part.
-/

namespace RegistryBlock.RunM

variable {α β : Type} {run : RunM α} {next : α → RunM β}

/-- A run that makes no calls and returns the same from every trace. -/
structure IsQuiet (run : RunM α) : Prop where
  result_eq : ∀ trace, (run.runFrom trace).1 = run.finish.1
  calls_eq : ∀ trace, (run.runFrom trace).2.calls = trace.calls

/-- A run whose result and whose calls depend on the calls before it, and not on the log. -/
structure IgnoresLog (run : RunM α) : Prop where
  result_eq : ∀ trace other, trace.calls = other.calls →
    (run.runFrom trace).1 = (run.runFrom other).1
  calls_eq : ∀ trace other, trace.calls = other.calls →
    (run.runFrom trace).2.calls = (run.runFrom other).2.calls

theorem IsQuiet.ignoresLog (h : IsQuiet run) : IgnoresLog run where
  result_eq trace other _ := (h.result_eq trace).trans (h.result_eq other).symm
  calls_eq trace other hcalls :=
    (h.calls_eq trace).trans (hcalls.trans (h.calls_eq other).symm)

/-! ### Quiet runs -/

theorem isQuiet_pure (a : α) : IsQuiet (pure a) := ⟨fun _ => rfl, fun _ => rfl⟩

theorem isQuiet_throw (failure : Failure) : IsQuiet (throw failure : RunM α) :=
  ⟨fun _ => rfl, fun _ => rfl⟩

/-- Nothing comes after a failure. -/
theorem isQuiet_throw_bind (failure : Failure) (next : α → RunM β) :
    IsQuiet ((throw failure : RunM α) >>= next) := ⟨fun _ => rfl, fun _ => rfl⟩

theorem IsQuiet.ite {c : Prop} [Decidable c] {other : RunM α} (h : IsQuiet run)
    (hother : IsQuiet other) : IsQuiet (if c then run else other) := by
  split
  · exact h
  · exact hother

theorem isQuiet_ofExcept (result : Except Failure α) : IsQuiet (ofExcept result) := by
  constructor <;> intro trace
  · rw [finish_eq, runFrom_ofExcept, runFrom_ofExcept]
  · rw [runFrom_ofExcept]

theorem isQuiet_log (area : String) (level : Journal.Level) (message : String) :
    IsQuiet (log area level message) := ⟨fun _ => rfl, fun _ => rfl⟩

theorem IsQuiet.bind (hrun : IsQuiet run) (hnext : ∀ a, IsQuiet (next a)) :
    IsQuiet (run >>= next) := by
  constructor <;> intro trace
  · have hresult := (hrun.result_eq trace).trans (hrun.result_eq {}).symm
    rw [finish_eq, runFrom_bind, runFrom_bind]
    generalize run.runFrom trace = found at hresult ⊢
    generalize run.runFrom {} = found' at hresult ⊢
    obtain ⟨result, later⟩ := found
    obtain ⟨_, later'⟩ := found'
    obtain rfl := hresult
    cases result with
    | error failure => rfl
    | ok a => exact ((hnext a).result_eq later).trans ((hnext a).result_eq later').symm
  · have hcalls := hrun.calls_eq trace
    rw [runFrom_bind]
    generalize run.runFrom trace = found at hcalls ⊢
    obtain ⟨failure | a, later⟩ := found
    · exact hcalls
    · exact ((hnext a).calls_eq later).trans hcalls

theorem isQuiet_forIn_log (area : String) (level : Journal.Level) (message : α → String)
    (items : List α) :
    IsQuiet (forIn (m := RunM) items PUnit.unit fun item _ => do
      log area level (message item)
      pure (ForInStep.yield PUnit.unit)) := by
  constructor <;> intro trace
  · rw [finish_eq, runFrom_forIn_log, runFrom_forIn_log]
  · rw [runFrom_forIn_log]

/-! ### Runs with calls -/

theorem ignoresLog_call (git : Git) (c : Git.Call) : IgnoresLog (call git c) := by
  constructor <;> intro trace other hcalls <;> rw [runFrom_call, runFrom_call, hcalls]

theorem IgnoresLog.bind (hrun : IgnoresLog run) (hnext : ∀ a, IgnoresLog (next a)) :
    IgnoresLog (run >>= next) := by
  constructor
  all_goals
    intro trace other hcalls
    have hresult := hrun.result_eq trace other hcalls
    have hlater := hrun.calls_eq trace other hcalls
    rw [runFrom_bind, runFrom_bind]
    generalize run.runFrom trace = found at hresult hlater ⊢
    generalize run.runFrom other = found' at hresult hlater ⊢
    obtain ⟨result, later⟩ := found
    obtain ⟨_, later'⟩ := found'
    obtain rfl := hresult
    cases result with
    | error failure => first | rfl | exact hlater
    | ok a =>
      first
      | exact (hnext a).result_eq later later' hlater
      | exact (hnext a).calls_eq later later' hlater

/-! ### What a run returns -/

/-- A run that returns the given result whenever it comes after the given calls. -/
structure Returns (calls : List Git.Call) (run : RunM α) (result : Except Failure α) : Prop where
  result_eq : ∀ trace, trace.calls = calls → (run.runFrom trace).1 = result

variable {calls : List Git.Call} {result : Except Failure β} {f : α → Except Failure β}

theorem Returns.result_finish {run : RunM β} (h : Returns [] run result) :
    run.finish.1 = result := h.result_eq {} rfl

theorem returns_log_bind {next : Unit → RunM β} (area : String) (level : Journal.Level)
    (message : String) (h : Returns calls (next ()) result) :
    Returns calls (log area level message >>= next) result := by
  constructor
  intro trace hcalls
  rw [runFrom_bind]
  exact h.result_eq _ hcalls

theorem returns_logAll_bind {next : Unit → RunM β} (records : List Journal.Record)
    (h : Returns calls (next ()) result) : Returns calls (logAll records >>= next) result := by
  constructor
  intro trace hcalls
  rw [runFrom_bind]
  exact h.result_eq _ hcalls

theorem returns_ofExcept_bind (start : Except Failure α)
    (hnext : ∀ a, Returns calls (next a) (f a)) :
    Returns calls (ofExcept start >>= next) (start >>= f) := by
  constructor
  intro trace hcalls
  rw [runFrom_bind, runFrom_ofExcept]
  cases start with
  | error failure => rfl
  | ok a => exact (hnext a).result_eq trace hcalls

theorem IsQuiet.returns_bind (hrun : IsQuiet run) (hnext : ∀ a, Returns calls (next a) (f a)) :
    Returns calls (run >>= next) (run.finish.1 >>= f) := by
  constructor
  intro trace hcalls
  have hlater := (hrun.calls_eq trace).trans hcalls
  rw [← hrun.result_eq trace, runFrom_bind]
  generalize run.runFrom trace = found at hlater ⊢
  obtain ⟨failure | a, later⟩ := found
  · rfl
  · exact (hnext a).result_eq later hlater

/-- After calls that nobody foresees, the rest has to return the same from all of them. -/
theorem IgnoresLog.returns_bind (hrun : IgnoresLog run)
    (hnext : ∀ a calls, Returns calls (next a) (f a)) :
    Returns [] (run >>= next) (run.finish.1 >>= f) := by
  constructor
  intro trace hcalls
  rw [finish_eq, ← hrun.result_eq trace {} hcalls, runFrom_bind]
  rcases run.runFrom trace with ⟨failure | a, later⟩
  · rfl
  · exact (hnext a later.calls).result_eq later rfl

end RegistryBlock.RunM
