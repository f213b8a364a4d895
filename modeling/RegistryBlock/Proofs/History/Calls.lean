import RegistryBlock.History.Reset
import RegistryBlock.Proofs.Project.Run

/-!
# Calls in a row

Calls are made one after the other until one fails. What a successful command does to the file tree
is up to git; a command that fails does nothing.
-/

namespace RegistryBlock

/-- What a reply to a command means for the one who called. -/
def Git.Reply.outcome (reply : Git.Reply) (args : List String) : Except Git.Error String :=
  match reply with
  | absent => .error .absent
  | failed code => .error (.failed args code)
  | printed text => .ok text

namespace Git

/-- Whether git carries out some calls that come after earlier ones. -/
def Answers (git : Git) (earlier : List Call) : List Call → Prop
  | [] => True
  | c :: rest => (∃ text, git.reply earlier c = .printed text) ∧ git.Answers (earlier ++ [c]) rest

/-- The file tree after some calls that come after earlier ones. -/
def after (git : Git) (effect : Call → Tree → Tree) (earlier : List Call) :
    List Call → Tree → Tree
  | [], tree => tree
  | c :: rest, tree =>
    match git.reply earlier c with
    | .printed _ => git.after effect (earlier ++ [c]) rest (effect c tree)
    | _ => git.after effect (earlier ++ [c]) rest tree

variable {git : Git}

theorem after_eq_foldl (effect : Call → Tree → Tree) {earlier done : List Call}
    (h : git.Answers earlier done) (rest : List Call) (tree : Tree) :
    git.after effect earlier (done ++ rest) tree =
      git.after effect (earlier ++ done) rest (done.foldl (fun tree c => effect c tree) tree) := by
  induction done generalizing earlier tree with
  | nil => rw [List.append_nil, List.nil_append, List.foldl_nil]
  | cons c done ih =>
    obtain ⟨⟨text, hreply⟩, hrest⟩ := h
    rw [List.cons_append, after, hreply, List.foldl_cons, List.append_cons earlier c done]
    exact ih hrest (effect c tree)

theorem after_of_outcome_eq_error (effect : Call → Tree → Tree) {earlier : List Call} {c : Call}
    {e : Error} (h : (git.reply earlier c).outcome c.args = .error e) (tree : Tree) :
    git.after effect earlier [c] tree = tree := by
  rw [after]
  cases hreply : git.reply earlier c with
  | printed text =>
    rw [hreply] at h
    cases h
  | _ => rfl

end Git

theorem RunM.runFrom_call (git : Git) (c : Git.Call) (trace : Trace) :
    (call git c).runFrom trace =
      (((git.reply trace.calls c).outcome c.args).mapError .git,
        { trace with calls := trace.calls ++ [c] }) := by
  have hcall : (call git c).runFrom trace =
      runFrom (match git.reply trace.calls c with
        | .absent => throw (.git .absent)
        | .failed code => throw (.git (.failed c.args code))
        | .printed text => return text) { trace with calls := trace.calls ++ [c] } := rfl
  rw [hcall]
  cases git.reply trace.calls c <;> rfl

/-- If calls in a row fail, then at one of them: git has carried out those before it, and those
after it are not made. -/
theorem History.exists_of_callAll_eq_error {git : Git} {calls : List Git.Call}
    {trace later : Trace} {failure : Failure}
    (h : (callAll git calls).runFrom trace = (.error failure, later)) :
    ∃ done failed rest e, calls = done ++ failed :: rest ∧
      later.calls = trace.calls ++ (done ++ [failed]) ∧ git.Answers trace.calls done ∧
      (git.reply (trace.calls ++ done) failed).outcome failed.args = .error e ∧
      failure = .git e := by
  induction calls generalizing trace with
  | nil => cases h
  | cons c calls ih =>
    rw [callAll, RunM.runFrom_bind, RunM.runFrom_call] at h
    cases hreply : git.reply trace.calls c with
    | printed text =>
      rw [hreply] at h
      obtain ⟨done, failed, rest, e, rfl, hlater, hanswers, hfailed, rfl⟩ := ih h
      rw [← List.append_cons] at hlater hfailed
      exact ⟨c :: done, failed, rest, e, rfl, hlater, ⟨⟨text, hreply⟩, hanswers⟩, hfailed, rfl⟩
    | absent =>
      rw [hreply] at h
      cases h
      refine ⟨[], c, calls, .absent, rfl, rfl, trivial, ?_, rfl⟩
      rw [List.append_nil, hreply]
      rfl
    | failed code =>
      rw [hreply] at h
      cases h
      refine ⟨[], c, calls, .failed c.args code, rfl, rfl, trivial, ?_, rfl⟩
      rw [List.append_nil, hreply]
      rfl

end RegistryBlock
