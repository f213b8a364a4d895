import RegistryBlock.Proofs.Command.Frame
import RegistryBlock.Proofs.History.Stops
import RegistryBlock.Proofs.Project.Documented

/-!
# How a failed run ends

A failure that the program describes ends a run with exit status 1 and its message on standard
error, if it comes up where the program is prepared for it: while the project is read, and in git.
Nothing is prepared for a file in the place of the history, nor for an output file without a
directory to be in. These two failures leave the program as they are.
-/

namespace RegistryBlock

theorem Failure.message_ne_empty (failure : Failure) : failure.message ≠ "" := by
  have hfront {s : String} (hs : s ≠ "") (t : String) : s ++ t ≠ "" :=
    fun h => hs (String.append_eq_empty_iff.1 h).1
  have hback {t : String} (ht : t ≠ "") (s : String) : s ++ t ≠ "" :=
    fun h => ht (String.append_eq_empty_iff.1 h).2
  cases failure with
  | settings e =>
    cases e with
    | malformed words => exact hfront (by decide) _
    | malformedComponents loc cause => exact hfront (hfront (hfront (by decide) _) _) _
    | _ => decide
  | manifest e =>
    cases e with
    | malformed cause => exact hfront (by decide) _
    | noObject => decide
  | git e =>
    cases e with
    | absent => decide
    | failed args code => exact hfront (hback (by decide) _) _
    | noRepository path => exact hback (by decide) _
    | noCommits repository => exact hback (by decide) _
  | path e => cases e <;> exact hfront (by decide) _
  | storage fault place => cases fault <;> exact hfront (hfront (by decide) _) _
  | scalar => decide

namespace Command

variable {host : Host} {options : Options} {failure : Failure}

/-! ### What a run comes upon -/

/-- A run that handles a failure ends with exit status 1, prints nothing, and gives the message of
the failure on standard error. -/
structure Outcome.Reports (outcome : Outcome) (failure : Failure) : Prop where
  stop : outcome.stop = .exit 1
  stdout : outcome.stdout = ""
  stderr : ∃ said rest, outcome.stderr = said ++ failure.message ++ rest

def restarted (host : Host) : Except Failure Unit :=
  (History.reset host.git host.environment host.tree (.ofLocation host.directory)).2.finish.1

/-- The failures that a run can come upon: while it starts the history anew, while it reads the
project, or when it writes the block. -/
inductive Meets (host : Host) (options : Options) : Failure → Prop
  | history {failure : Failure} (hinit : options.init = true)
      (h : restarted host = .error failure) : Meets host options failure
  | reading {failure : Failure} (hinit : options.init = false)
      (h : (prepare host options).finish.1 = .error failure) : Meets host options failure
  | writing {block : Block} {path : WrittenPath} {fault : Tree.Fault}
      (hinit : options.init = false)
      (h : (prepare host options).finish.1 = .ok (block, some path))
      (hfault : host.tree.writable (placeFor host path) = .error fault) :
      Meets host options (.storage fault (placeFor host path).text)

/-- The described failures that leave the program. -/
inductive EscapesRun (host : Host) (options : Options) : Failure → Prop
  /-- A file stands in the place of the history. -/
  | history (hinit : options.init = true)
      (hfile : host.tree.isFileAt (host.directory.child ".git") = true) :
      EscapesRun host options (.storage .notDirectory (host.directory.child ".git").text)
  /-- The block is there, and the directory that its file is to be in is not. -/
  | output {block : Block} {path : WrittenPath} {fault : Tree.Fault}
      (hinit : options.init = false) (hblock : built host options = .ok block)
      (houtput : outputFor host options = .ok (some path))
      (hparent : host.tree.leadsToDir (placeFor host path).parent = false)
      (hfault : host.tree.writable (placeFor host path) = .error fault) :
      EscapesRun host options (.storage fault (placeFor host path).text)

/-! ### The two kinds of runs -/

theorem restart_reports {e : Git.Error} (h : restarted host = .error (.git e)) :
    (restart host options).Reports (.git e) := by
  unfold restart
  unfold restarted at h
  dsimp only
  rcases hfinish : (History.reset host.git host.environment host.tree
    (.ofLocation host.directory)).2.finish with ⟨result, trace⟩
  rw [hfinish] at h
  obtain rfl : result = .error (.git e) := h
  exact ⟨rfl, rfl, _, _, rfl⟩

/-- Of the failures that stop a reset, those of git are handled and the others are not. -/
theorem restart_stop_eq_raised_iff : (restart host options).stop = .raised failure ↔
    restarted host = .error failure ∧ ∀ e, failure ≠ .git e := by
  unfold restart restarted
  dsimp only
  rcases (History.reset host.git host.environment host.tree
    (.ofLocation host.directory)).2.finish with ⟨other | _, trace⟩
  · cases other <;> simp [eq_comm] <;> rintro rfl <;> simp
  · simp

/-- A run has something to say about every described failure. -/
theorem exists_farewell? (hdoc : failure.IsDocumented) :
    ∃ front rest, farewell? failure = some (front ++ failure.message ++ rest) := by
  cases failure with
  | settings e => exact ⟨_, _, rfl⟩
  | manifest e => exact ⟨_, _, rfl⟩
  | git e => exact ⟨_, _, rfl⟩
  | path e => exact ⟨"", "\n", by rw [String.empty_append]; rfl⟩
  | storage fault place =>
    refine ⟨"", "\n", ?_⟩
    rw [String.empty_append]
    rcases hdoc with rfl | rfl <;> rfl
  | scalar => exact absurd hdoc id

theorem produce_reports (hdoc : failure.IsDocumented)
    (h : (prepare host options).finish.1 = .error failure) :
    (produce host options).Reports failure := by
  obtain ⟨front, rest, hwords⟩ := exists_farewell? hdoc
  unfold produce
  rcases hfinish : (prepare host options).finish with ⟨result, trace⟩
  rw [hfinish] at h
  obtain rfl : result = .error failure := h
  simp only [hwords]
  exact ⟨rfl, rfl, consoleText options trace.records ++ front, rest, by
    simp only [String.append_assoc]⟩

/-- A described failure is handled unless it comes from the output file. -/
theorem produce_stop_eq_raised_iff (hdoc : failure.IsDocumented) :
    (produce host options).stop = .raised failure ↔
      ∃ block path fault, (prepare host options).finish.1 = .ok (block, some path) ∧
        host.tree.writable (placeFor host path) = .error fault ∧
        failure = .storage fault (placeFor host path).text := by
  unfold produce
  rcases (prepare host options).finish with ⟨other | ⟨block, output⟩, trace⟩
  · dsimp only
    constructor
    · cases hwords : farewell? other with
      | some words => rintro ⟨⟩
      | none =>
        rintro ⟨⟩
        obtain ⟨front, rest, hsome⟩ := exists_farewell? hdoc
        cases hwords.symm.trans hsome
    · rintro ⟨_, _, _, ⟨⟩, -⟩
  · cases output with
    | none =>
      constructor
      · rintro ⟨⟩
      · rintro ⟨_, _, _, ⟨⟩, -⟩
    | some path =>
      dsimp only [deliver, placeFor]
      cases hloc : host.tree.writable ((WrittenPath.ofLocation host.directory).append path) with
      | error fault =>
        constructor
        · rintro ⟨⟩
          exact ⟨block, path, fault, rfl, hloc, rfl⟩
        · rintro ⟨_, _, _, ⟨⟩, hfault, rfl⟩
          obtain rfl := Except.error.inj (hloc.symm.trans hfault)
          rfl
      | ok loc =>
        constructor
        · rintro ⟨⟩
        · rintro ⟨_, _, _, ⟨⟩, hfault, -⟩
          cases hloc.symm.trans hfault

/-! ### All runs -/

theorem restarted_eq_error_iff (hup : ".." ∉ host.directory.names)
    (hdir : host.tree.isDirAt host.directory = true) (hgit : ∀ e, failure ≠ .git e) :
    restarted host = .error failure ↔
      host.tree.isFileAt (host.directory.child ".git") = true ∧
        failure = .storage .notDirectory (host.directory.child ".git").text := by
  rw [restarted, History.result_reset_eq_error_iff, WrittenPath.resolve_ofLocation hup,
    ← History.result_preparation_eq_error_iff hup hdir]
  constructor
  · rintro (h | ⟨-, e, rfl, -⟩)
    · exact h
    · exact absurd rfl (hgit e)
  · exact Or.inl

theorem outcome_stop_eq_raised_iff (hup : ".." ∉ host.directory.names)
    (hdir : host.tree.isDirAt host.directory = true) (hdoc : failure.IsDocumented) :
    ((Request.run options).outcome host).stop = .raised failure ↔
      EscapesRun host options failure := by
  rw [Request.outcome]
  cases hinit : options.init with
  | true =>
    rw [if_pos rfl, restart_stop_eq_raised_iff]
    constructor
    · rintro ⟨h, hgit⟩
      obtain ⟨hfile, rfl⟩ := (restarted_eq_error_iff hup hdir hgit).1 h
      exact .history hinit hfile
    · rintro (⟨-, hfile⟩ | ⟨hother⟩)
      · have hgit (e : Git.Error) :
            Failure.storage .notDirectory (host.directory.child ".git").text ≠ .git e :=
          Failure.noConfusion
        exact ⟨(restarted_eq_error_iff hup hdir hgit).2 ⟨hfile, rfl⟩, hgit⟩
      · cases hinit.symm.trans hother
  | false =>
    rw [if_neg Bool.false_ne_true, produce_stop_eq_raised_iff hdoc]
    constructor
    · rintro ⟨block, path, fault, h, hfault, rfl⟩
      obtain ⟨hblock, houtput⟩ := result_prepare_eq_ok_iff.1 h
      -- the third reason of the file system, a directory in the way, is not described
      have hkind : fault ≠ .isDirectory := by
        rintro rfl
        rcases hdoc with hkind | hkind <;> cases hkind
      exact .output hinit hblock houtput
        (Tree.leadsToDir_parent_of_writable_eq_error hfault hkind) hfault
    · rintro (⟨hother⟩ | ⟨-, hblock, houtput, -, hfault⟩)
      · cases hinit.symm.trans hother
      · exact ⟨_, _, _, result_prepare_eq_ok_iff.2 ⟨hblock, houtput⟩, hfault, rfl⟩

theorem outcome_reports (hup : ".." ∉ host.directory.names)
    (hdir : host.tree.isDirAt host.directory = true) (hdoc : failure.IsDocumented)
    (hmeets : Meets host options failure) (hescapes : ¬ EscapesRun host options failure) :
    ((Request.run options).outcome host).Reports failure := by
  have hstop := mt (outcome_stop_eq_raised_iff hup hdir hdoc).1 hescapes
  rw [Request.outcome] at hstop ⊢
  cases hmeets with
  | history hinit h =>
    rw [if_pos hinit] at hstop ⊢
    by_cases hgit : ∃ e, failure = .git e
    · obtain ⟨e, rfl⟩ := hgit
      exact restart_reports h
    · exact absurd (restart_stop_eq_raised_iff.2 ⟨h, not_exists.1 hgit⟩) hstop
  | reading hinit h =>
    rw [if_neg (by simp [hinit])]
    exact produce_reports hdoc h
  | writing hinit h hfault =>
    rw [if_neg (by simp [hinit])] at hstop
    exact absurd ((produce_stop_eq_raised_iff hdoc).2 ⟨_, _, _, h, hfault, rfl⟩) hstop

theorem exists_options_of_stop_eq_raised {args : List String}
    (h : (run host args).stop = .raised failure) :
    ∃ options, Request.ofArgs args = .ok (.run options) := by
  revert h
  unfold run
  rcases Request.ofArgs args with e | (- | options)
  · rintro ⟨⟩
  · rintro ⟨⟩
  · exact fun _ => ⟨options, rfl⟩

/-- A described failure leaves the program just if it comes from a file in the place of the history
or from an output file without its directory. Every other described failure that a run comes upon
ends it with exit status 1 and a message on standard error. -/
theorem run_raised_iff_escapes (host : Host) (args : List String)
    (hup : ".." ∉ host.directory.names) (hdir : host.tree.isDirAt host.directory = true)
    (hdoc : failure.IsDocumented) :
    ((run host args).stop = .raised failure ↔
      ∃ options, Request.ofArgs args = .ok (.run options) ∧ EscapesRun host options failure) ∧
    ∀ options, Request.ofArgs args = .ok (.run options) → Meets host options failure →
      ¬ EscapesRun host options failure →
      failure.message ≠ "" ∧ (run host args).Reports failure := by
  have hrun {options : Options} (hargs : Request.ofArgs args = .ok (.run options)) :
      run host args = (Request.run options).outcome host := by rw [run, hargs]
  refine ⟨⟨fun hstop => ?_, ?_⟩, fun options hargs hmeets hescapes => ?_⟩
  · obtain ⟨options, hargs⟩ := exists_options_of_stop_eq_raised hstop
    rw [hrun hargs] at hstop
    exact ⟨options, hargs, (outcome_stop_eq_raised_iff hup hdir hdoc).1 hstop⟩
  · rintro ⟨options, hargs, hescapes⟩
    rw [hrun hargs]
    exact (outcome_stop_eq_raised_iff hup hdir hdoc).2 hescapes
  · rw [hrun hargs]
    exact ⟨failure.message_ne_empty, outcome_reports hup hdir hdoc hmeets hescapes⟩

theorem run_raised_iff_escapes_kit :
    let kit : List (String × Tree) := [("a.ts", .file "x".toUTF8),
      ("components.json", .file "{}".toUTF8)]
    let host : Host := { tree := .dir [("kit", .dir kit)], directory := ⟨["kit"]⟩ }
    let failure : Failure := .path (.manifestMissing ⟨["kit", "package.json"]⟩)
    ".." ∉ host.directory.names ∧ host.tree.isDirAt host.directory = true ∧
      failure.IsDocumented ∧ Meets host {} failure ∧ ¬ EscapesRun host {} failure ∧
      (run host []).Reports failure := by
  intro kit host failure
  have hup : ".." ∉ host.directory.names := by decide +kernel
  have hdir : host.tree.isDirAt host.directory = true := by decide +kernel
  have hdoc : failure.IsDocumented := trivial
  have hargs : Request.ofArgs [] = .ok (.run {}) := by decide +kernel
  have hprepare : (prepare host {}).finish.1.map (fun _ => ()) = .error failure := by
    decide +kernel
  have hmeets : Meets host {} failure := .reading rfl (map_eq_error_iff.1 hprepare)
  have hstop : (run host []).stop ≠ .raised failure := by decide +kernel
  obtain ⟨hraised, hreports⟩ := run_raised_iff_escapes host [] hup hdir hdoc
  have hescapes : ¬ EscapesRun host {} failure := fun h => hstop (hraised.2 ⟨{}, hargs, h⟩)
  exact ⟨hup, hdir, hdoc, hmeets, hescapes, (hreports {} hargs hmeets hescapes).2⟩

/-- Neither an output file without its directory nor a file in the place of the history is
handled. -/
theorem run_raised_of_no_folder :
    let kit : List (String × Tree) := [(".git", .file "".toUTF8), ("a.ts", .file "x".toUTF8),
      ("components.json", .file "{}".toUTF8), ("package.json", .file "{}".toUTF8)]
    let host : Host := { tree := .dir [("kit", .dir kit)], directory := ⟨["kit"]⟩ }
    let unwritten : Failure := .storage .missing "/kit/missing/block.json"
    let unreset : Failure := .storage .notDirectory "/kit/.git"
    unwritten.IsDocumented ∧ (run host ["-o", "missing/block.json"]).stop = .raised unwritten ∧
      unreset.IsDocumented ∧ (run host ["--init"]).stop = .raised unreset := by
  intro kit host unwritten unreset
  exact ⟨Or.inl rfl, by decide +kernel, Or.inr rfl, by decide +kernel⟩

end Command

end RegistryBlock
