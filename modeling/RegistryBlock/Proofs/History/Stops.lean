import RegistryBlock.Proofs.History.Reset
import RegistryBlock.Proofs.Tree.Rewrite

/-!
# What stops a reset

A reset of a directory that is there is stopped by git, or before git is called at all: a file in
the place of the history is not taken away. The ignore file can always be written.
-/

namespace RegistryBlock.History

variable {tree : Tree} {repo : Location} {failure : Failure}

theorem historyChange?_eq_error_iff :
    historyChange? tree repo = .error failure ↔
      tree.isFileAt (repo.child ".git") = true ∧
        failure = .storage .notDirectory (repo.child ".git").text := by
  unfold historyChange?
  dsimp only
  rw [Tree.holds, Tree.isDirAt, Tree.isFileAt]
  rcases tree.get? (repo.child ".git") with - | (bytes | entries) <;> simp [Tree.isDir, eq_comm]

/-- A directory that is there can be given an ignore file. -/
theorem exists_ignoreFileChange?_eq_ok (hup : ".." ∉ repo.names)
    (hdir : tree.isDirAt repo = true) : ∃ change, ignoreFileChange? tree repo = .ok change := by
  unfold ignoreFileChange?
  dsimp only
  split
  · exact ⟨none, rfl⟩
  · next hmissing =>
    have hwritable : tree.writable (.ofLocation (repo.child ".gitignore")) =
        .ok (repo.child ".gitignore") :=
      Tree.writable_eq_ok_iff.2 ⟨repo.names, ".gitignore", repo, rfl, by decide,
        Tree.follow_root_of_holds hup (Tree.holds_of_isDirAt hdir), hdir, rfl,
        Tree.isDirAt_eq_false_of_holds (eq_false_of_ne_true hmissing)⟩
    rw [hwritable]
    exact ⟨_, rfl⟩

theorem isDirAt_of_historyChange? {change : Option Change}
    (h : historyChange? tree repo = .ok change) (hdir : tree.isDirAt repo = true) :
    (Change.applyAll tree change.toList).isDirAt repo = true := by
  have hbelow : ¬ (repo.child ".git").names <+: repo.names := by
    intro hfront
    have hlength := hfront.length_le
    rw [Location.child, List.length_append, List.length_singleton] at hlength
    exact Nat.not_succ_le_self _ hlength
  rw [Tree.isDirAt_iff_look, look_of_historyChange? h, if_neg hbelow]
  exact Tree.isDirAt_iff_look.1 hdir

/-- A directory that is there can be prepared, unless a file stands in the place of its history. -/
theorem result_preparation_eq_error_iff (hup : ".." ∉ repo.names)
    (hdir : tree.isDirAt repo = true) :
    (preparation tree repo).2 = .error failure ↔
      tree.isFileAt (repo.child ".git") = true ∧
        failure = .storage .notDirectory (repo.child ".git").text := by
  rw [← historyChange?_eq_error_iff]
  unfold preparation
  cases hchange : historyChange? tree repo with
  | error other => simp
  | ok change =>
    obtain ⟨ignore, hignore⟩ :=
      exists_ignoreFileChange?_eq_ok hup (isDirAt_of_historyChange? hchange hdir)
    simp only [hignore]
    constructor <;> rintro ⟨⟩

/-- A reset is stopped by its preparation or by git. -/
theorem result_reset_eq_error_iff {git : Git} {environment : List (String × String)}
    {path : WrittenPath} :
    (reset git environment tree path).2.finish.1 = .error failure ↔
      (preparation tree (path.resolve .root)).2 = .error failure ∨
      (preparation tree (path.resolve .root)).2 = .ok () ∧ ∃ e, failure = .git e ∧
        ((callAll git (commitCalls (path.resolve .root) environment)).runFrom {}).1 =
          .error (.git e) := by
  rw [finish_reset, RunM.runFrom_bind, RunM.runFrom_ofExcept]
  cases (preparation tree (path.resolve .root)).2 with
  | error other => simp
  | ok _ =>
    simp only [RunM.runFrom_bind]
    rcases hcalls : (callAll git (commitCalls (path.resolve .root) environment)).runFrom {} with
      ⟨other | _, later⟩
    · obtain ⟨-, -, -, e, -, -, -, -, rfl⟩ := exists_of_callAll_eq_error hcalls
      simp [eq_comm]
    · simp [RunM.runFrom_log]

end RegistryBlock.History
