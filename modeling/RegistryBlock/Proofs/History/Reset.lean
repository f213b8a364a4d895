import RegistryBlock.Proofs.History.Calls
import RegistryBlock.Proofs.Tree.Follow
import RegistryBlock.Proofs.Tree.Frame
import RegistryBlock.Proofs.Tree.Listing

/-!
# A reset that fails

The history is taken away before git is asked for anything, and nothing brings it back. When git
fails, the history is gone, the ignore file is there, and what git did before stays.
-/

namespace RegistryBlock.History

variable {tree : Tree} {repo : Location}

/-- Whether the tree is another one with the history of a directory taken away, and with an ignore
file if there was none. Everything else is as before. -/
def IsPrepared (tree : Tree) (repo : Location) (prepared : Tree) : Prop :=
  ∀ names, prepared.look names =
    if (repo.child ".git").names <+: names then none
    else if names = (repo.child ".gitignore").names ∧
        tree.holds (repo.child ".gitignore") = false then
      some (some defaultIgnoreFile.toUTF8)
    else tree.look names

theorem not_git_prefix_gitignore (repo : Location) :
    ¬ (repo.child ".git").names <+: (repo.child ".gitignore").names := by
  intro h
  rw [Location.child, Location.child, List.prefix_append_right_inj] at h
  revert h
  decide

/-! ### Preparation -/

theorem look_of_historyChange? {change : Option Change}
    (h : historyChange? tree repo = .ok change) (names : List String) :
    (Change.applyAll tree change.toList).look names =
      if (repo.child ".git").names <+: names then none else tree.look names := by
  unfold historyChange? at h
  dsimp only at h
  split at h
  · split at h
    · cases h
      exact Tree.look_erase tree repo ".git" names
    · cases h
  · next hmissing =>
    cases h
    split
    · next hfront =>
      exact Tree.look_eq_none_of_prefix (eq_false_of_ne_true hmissing) hfront
    · rfl

theorem look_of_ignoreFileChange? {change : Option Change} (hup : ".." ∉ repo.names)
    (h : ignoreFileChange? tree repo = .ok change) (names : List String) :
    (Change.applyAll tree change.toList).look names =
      if names = (repo.child ".gitignore").names ∧ tree.holds (repo.child ".gitignore") = false then
        some (some defaultIgnoreFile.toUTF8)
      else tree.look names := by
  unfold ignoreFileChange? at h
  dsimp only at h
  split at h
  · next hholds =>
    cases h
    rw [hholds, if_neg (by simp)]
    rfl
  · next hmissing =>
    have hmissing := eq_false_of_ne_true hmissing
    split at h
    · next loc hloc =>
      cases h
      obtain ⟨rfl, hdir⟩ := Tree.writable_child_eq_ok hup (by decide) hloc
      rw [hmissing]
      simp only [and_true]
      exact Tree.look_set_file hdir (Tree.isDirAt_eq_false_of_holds hmissing) _ names
    · cases h

theorem exists_changes_of_preparation (h : (preparation tree repo).2 = .ok ()) :
    ∃ change ignore, historyChange? tree repo = .ok change ∧
      ignoreFileChange? (Change.applyAll tree change.toList) repo = .ok ignore ∧
      (preparation tree repo).1 = change.toList ++ ignore.toList := by
  unfold preparation at h ⊢
  cases hchange : historyChange? tree repo with
  | error failure =>
    rw [hchange] at h
    cases h
  | ok change =>
    rw [hchange] at h
    dsimp only at h ⊢
    cases hignore : ignoreFileChange? (Change.applyAll tree change.toList) repo with
    | error failure =>
      rw [hignore] at h
      cases h
    | ok ignore => exact ⟨change, ignore, rfl, hignore, rfl⟩

theorem isPrepared_of_preparation (hup : ".." ∉ repo.names)
    (h : (preparation tree repo).2 = .ok ()) :
    IsPrepared tree repo (Change.applyAll tree (preparation tree repo).1) := by
  intro names
  obtain ⟨change, ignore, hchange, hignore, hboth⟩ := exists_changes_of_preparation h
  have herased := look_of_historyChange? hchange
  have hholds : (Change.applyAll tree change.toList).holds (repo.child ".gitignore") =
      tree.holds (repo.child ".gitignore") := by
    rw [Tree.holds_eq_look, Tree.holds_eq_look, herased, if_neg (not_git_prefix_gitignore repo)]
  rw [hboth, Change.applyAll, List.foldl_append, ← Change.applyAll, ← Change.applyAll,
    look_of_ignoreFileChange? hup hignore, hholds, herased]
  by_cases hfront : (repo.child ".git").names <+: names
  · rw [if_pos hfront, if_pos hfront, if_neg]
    rintro ⟨rfl, -⟩
    exact not_git_prefix_gitignore repo hfront
  · rw [if_neg hfront, if_neg hfront]

theorem isStorage_of_preparation {failure : Failure}
    (h : (preparation tree repo).2 = .error failure) :
    ∃ fault place, failure = .storage fault place := by
  unfold preparation historyChange? ignoreFileChange? at h
  dsimp only at h
  split at h
  · next hchange =>
    cases h
    split at hchange
    · split at hchange <;> cases hchange
      exact ⟨_, _, rfl⟩
    · cases hchange
  · split at h
    · next hignore =>
      cases h
      split at hignore
      · cases hignore
      · split at hignore <;> cases hignore
        exact ⟨_, _, rfl⟩
    · cases h

/-- The preparation is not seen if and only if there is nothing to prepare. -/
theorem IsPrepared.agrees_iff {prepared : Tree} (h : IsPrepared tree repo prepared) :
    prepared.Agrees tree ↔
      tree.holds (repo.child ".git") = false ∧ tree.holds (repo.child ".gitignore") = true := by
  constructor
  · intro hagrees
    refine ⟨?_, ?_⟩
    · rw [← hagrees.holds_eq, Tree.holds_eq_look, h, if_pos (List.prefix_refl _)]
      rfl
    · cases hholds : tree.holds (repo.child ".gitignore") with
      | true => rfl
      | false =>
        have hlook := hagrees (repo.child ".gitignore").names
        rw [h, if_neg (not_git_prefix_gitignore repo), if_pos ⟨rfl, hholds⟩] at hlook
        rw [Tree.holds_eq_look, ← hlook] at hholds
        cases hholds
  · rintro ⟨hgit, hignore⟩ names
    rw [h, hignore]
    split
    · next hfront => exact (Tree.look_eq_none_of_prefix hgit hfront).symm
    · rw [if_neg (by simp)]

/-! ### Failure -/

theorem finish_reset (git : Git) (environment : List (String × String)) (tree : Tree)
    (path : WrittenPath) :
    (reset git environment tree path).2.finish =
      (do
        RunM.ofExcept (preparation tree (path.resolve .root)).2
        callAll git (commitCalls (path.resolve .root) environment)
        RunM.log "git" .info
          ("Initialized baseline commit in " ++ (path.resolve .root).text)).runFrom {} := rfl

theorem exists_of_reset_eq_git_error {git : Git} {environment : List (String × String)}
    {path : WrittenPath} {e : Git.Error} {trace : Trace}
    (h : (reset git environment tree path).2.finish = (.error (.git e), trace)) :
    (preparation tree (path.resolve .root)).2 = .ok () ∧
      (callAll git (commitCalls (path.resolve .root) environment)).runFrom {} =
        (.error (.git e), trace) := by
  rw [finish_reset] at h
  rcases RunM.cases_of_runFrom_bind_eq_error h with h | ⟨_, later, hprepared, h⟩
  · rw [RunM.runFrom_ofExcept] at h
    obtain ⟨fault, place, hstorage⟩ := isStorage_of_preparation (congrArg Prod.fst h)
    cases hstorage
  · rw [RunM.runFrom_ofExcept] at hprepared
    obtain ⟨hresult, rfl⟩ := Prod.mk.inj hprepared
    rcases RunM.cases_of_runFrom_bind_eq_error h with h | ⟨_, last, -, h⟩
    · exact ⟨hresult, h⟩
    · cases h

/-- A reset that git stops leaves the tree prepared, and with what git did to it before the command
that failed; the commands after that one are not called. Nothing is taken back. -/
theorem isPrepared_of_reset_eq_git_error {git : Git} {environment : List (String × String)}
    {path : WrittenPath} {e : Git.Error} {trace : Trace} (effect : Git.Call → Tree → Tree)
    (h : (reset git environment tree path).2.finish = (.error (.git e), trace)) :
    let repo := path.resolve .root
    let prepared := Change.applyAll tree (reset git environment tree path).1
    IsPrepared tree repo prepared ∧
      (prepared.Agrees tree ↔
        tree.holds (repo.child ".git") = false ∧ tree.holds (repo.child ".gitignore") = true) ∧
      ∃ done failed rest, commitCalls repo environment = done ++ failed :: rest ∧
        trace.calls = done ++ [failed] ∧ git.Answers [] done ∧
        (git.reply done failed).outcome failed.args = .error e ∧
        git.after effect [] trace.calls prepared =
          done.foldl (fun tree c => effect c tree) prepared := by
  intro repo prepared
  obtain ⟨hresult, hcalls⟩ := exists_of_reset_eq_git_error h
  have hprepared : IsPrepared tree repo prepared :=
    isPrepared_of_preparation (path.up_not_mem_resolve List.not_mem_nil) hresult
  refine ⟨hprepared, hprepared.agrees_iff, ?_⟩
  obtain ⟨done, failed, rest, cause, hsplit, htrace, hanswers, houtcome, hcause⟩ :=
    exists_of_callAll_eq_error hcalls
  cases hcause
  have htrace : trace.calls = done ++ [failed] := htrace
  refine ⟨done, failed, rest, hsplit, htrace, hanswers, houtcome, ?_⟩
  rw [htrace, Git.after_eq_foldl effect hanswers, Git.after_of_outcome_eq_error effect houtcome]

theorem isPrepared_of_reset_eq_git_error_kit :
    let git : Git := ⟨fun earlier _ => if earlier.length = 2 then .failed 128 else .printed ""⟩
    let tree : Tree :=
      .dir [("kit",
        .dir [(".git", .dir [("HEAD", .file "ref".toUTF8)]), ("a.ts", .file "".toUTF8)])]
    let path : WrittenPath := ⟨"/", ["kit"]⟩
    let commit : List String := ["git", "commit", "-m", "Initial commit"]
    (reset git [] tree path).2.finish =
        (.error (.git (.failed commit 128)), { calls := commitCalls ⟨["kit"]⟩ [] }) ∧
      IsPrepared tree ⟨["kit"]⟩ (Change.applyAll tree (reset git [] tree path).1) := by
  intro git tree path commit
  have hrun : (reset git [] tree path).2.finish =
      (.error (.git (.failed commit 128)), { calls := commitCalls ⟨["kit"]⟩ [] }) := rfl
  exact ⟨hrun, (isPrepared_of_reset_eq_git_error (fun _ tree => tree) hrun).1⟩

/-- Without git, a reset fails and the history is lost all the same. -/
theorem not_agrees_of_reset_eq_git_error :
    ¬ ∀ (effect : Git.Call → Tree → Tree) (git : Git) (environment : List (String × String))
      (tree : Tree) (path : WrittenPath) (e : Git.Error) (trace : Trace), tree.WellFormed →
      (reset git environment tree path).2.finish = (.error (.git e), trace) →
      (git.after effect [] trace.calls
        (Change.applyAll tree (reset git environment tree path).1)).Agrees tree := by
  intro hall
  let history : List (String × Tree) := [("HEAD", .file "ref".toUTF8)]
  let kit : List (String × Tree) := [(".git", .dir history), (".gitignore", .file "".toUTF8)]
  have hhistory : (Tree.dir history).WellFormed :=
    .dir (by decide) (by decide) (List.forall_mem_singleton.2 (.file _))
  have hkit : (Tree.dir kit).WellFormed :=
    .dir (by decide) (by decide)
      (List.forall_mem_cons.2 ⟨hhistory, List.forall_mem_singleton.2 (.file _)⟩)
  have htree : (Tree.dir [("kit", .dir kit)]).WellFormed :=
    .dir (by decide) (by decide) (List.forall_mem_singleton.2 hkit)
  have hagrees := hall (fun _ tree => tree) .none [] _ ⟨"/", ["kit"]⟩ .absent
    { calls := (commitCalls ⟨["kit"]⟩ []).take 1 } htree rfl
  have hlook := hagrees ["kit", ".git"]
  revert hlook
  decide +kernel

end RegistryBlock.History
