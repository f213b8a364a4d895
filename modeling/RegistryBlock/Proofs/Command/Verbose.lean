import RegistryBlock.Proofs.Command.Frame

/-!
# Standard output and verbosity

Standard output carries the block and nothing else. To ask for more of the log changes what stands
on standard error and nothing else: the words of the command line mean the same, the block is built
without a look at the log, and what is printed, written and returned comes from the block alone.
-/

namespace RegistryBlock.Command

variable {host : Host} {options : Options} {args : List String}

/-! ### The command line -/

def Options.louder (options : Options) : Options := { options with verbose := true }

def Request.louder : Request → Request
  | help => help
  | run options => run options.louder

theorem Options.put_louder (options : Options) (value : String) (s : Switch) :
    options.louder.put value s = (options.put value s).louder := by
  cases s <;> rfl

theorem Options.enableAll_louder (options : Options) (flags : List Switch) :
    options.louder.enableAll flags = (options.enableAll flags).louder := by
  induction flags generalizing options with
  | nil => rfl
  | cons s flags ih =>
    have henable : options.louder.enable s = (options.enable s).louder := by cases s <;> rfl
    rw [enableAll, List.foldl_cons, henable]
    exact ih (options.enable s)

/-- The words of a command line mean the same, whatever was asked of the log before them. -/
theorem Request.ofWords_louder (options : Options) (extra : List String) (words : List Word) :
    ofWords options.louder extra words = (ofWords options extra words).map louder := by
  -- one or two words are taken off, and the options with what these say are louder still
  fun_induction ofWords options extra words <;>
    simp_all [ofWords, Options.enableAll_louder, Options.put_louder, Except.map, louder]

theorem Request.ofArgs_verbose (args : List String) :
    ofArgs ("-v" :: args) = (ofArgs args).map louder := by
  have hword : Word.ofString "-v" = .ok (.short .verbose []) := by decide +kernel
  rw [ofArgs, ofArgs, Word.ofStrings, hword]
  cases Word.ofStrings args with
  | error e => rfl
  | ok words => exact ofWords_louder {} [] words

/-! ### The run -/

/-- What a run leaves apart from what it says on standard error. -/
def Outcome.silent (outcome : Outcome) : Outcome := { outcome with stderr := "" }

theorem silent_deliver (host : Host) (said other : String) (block : Block)
    (output : Option WrittenPath) :
    (deliver host said block output).silent = (deliver host other block output).silent := by
  cases output with
  | none => rfl
  | some path =>
    dsimp only [deliver]
    split <;> rfl

/-- The log is not read, so it makes no difference how much of it is shown. -/
theorem silent_produce_louder (host : Host) (options : Options) :
    (produce host options.louder).silent = (produce host options).silent := by
  have hprepare : prepare host options.louder = prepare host options := rfl
  unfold produce
  rw [hprepare]
  rcases (prepare host options).finish with ⟨failure | ⟨block, output⟩, trace⟩
  · dsimp only
    cases farewell? failure <;> rfl
  · exact silent_deliver ..

theorem silent_restart_louder (host : Host) (options : Options) :
    (restart host options.louder).silent = (restart host options).silent := by
  unfold restart
  rcases (History.reset host.git host.environment host.tree (.ofLocation host.directory)) with
    ⟨changes, run⟩
  dsimp only
  rcases run.finish with ⟨(- | - | - | - | - | -) | -, trace⟩ <;> rfl

theorem silent_run_verbose (host : Host) (args : List String) :
    (run host ("-v" :: args)).silent = (run host args).silent := by
  rw [run, run, Request.ofArgs_verbose]
  rcases Request.ofArgs args with e | (- | options)
  · rfl
  · rfl
  · dsimp only [Except.map, Request.louder, Request.outcome]
    rw [show options.louder.init = options.init from rfl]
    split
    · exact silent_restart_louder host options
    · exact silent_produce_louder host options

theorem stdout_produce_of_stop_ne (h : (produce host options).stop ≠ .exit 0) :
    (produce host options).stdout = "" := by
  revert h
  unfold produce
  rcases (prepare host options).finish with ⟨failure | ⟨block, - | path⟩, trace⟩
  · dsimp only
    cases farewell? failure <;> exact fun _ => rfl
  · exact fun h => absurd rfl h
  · dsimp only [deliver]
    split <;> exact fun _ => rfl

/-- A run that succeeds has built a block, which it prints unless a file was chosen for it. -/
theorem exists_stdout_produce_eq (h : (produce host options).stop = .exit 0) :
    ∃ block output, built host options = .ok block ∧ outputFor host options = .ok output ∧
      (produce host options).stdout =
        if output.isSome then "" else block.render (.lines 2) ++ "\n" := by
  cases produce_concludes host options with
  | failed hfailed hchanges => exact absurd h hfailed
  | @printed block _ hblock houtput hstdout hchanges =>
    exact ⟨block, none, hblock, houtput, hstdout⟩
  | @written block path loc _ hblock houtput hloc hstdout hchanges =>
    exact ⟨block, some path, hblock, houtput, hstdout⟩

/-- A run that is asked neither for help nor for a new history prints nothing if it fails or writes
to a file. Otherwise it prints the block with a line feed behind it. To ask for more of the log in
front of everything else makes no difference to how it ends, to what it prints and to the tree. -/
theorem run_prints_block (host : Host) (args : List String)
    (hhelp : Request.ofArgs args ≠ .ok .help)
    (hinit : ∀ options, Request.ofArgs args = .ok (.run options) → options.init = false) :
    let outcome := run host args
    let louder := run host ("-v" :: args)
    (outcome.stop ≠ .exit 0 → outcome.stdout = "") ∧
    (outcome.stop = .exit 0 →
      ∃ options block output, Request.ofArgs args = .ok (.run options) ∧
        built host options = .ok block ∧ outputFor host options = .ok output ∧
        outcome.stdout = if output.isSome then "" else block.render (.lines 2) ++ "\n") ∧
    louder.stop = outcome.stop ∧ louder.stdout = outcome.stdout ∧
    treeAfter host louder = treeAfter host outcome := by
  intro outcome louder
  have hsilent : louder.silent = outcome.silent := silent_run_verbose host args
  obtain ⟨hstop, hstdout, -, hchanges⟩ := Outcome.mk.inj hsilent
  rw [← and_assoc]
  refine ⟨?_, hstop, hstdout, by rw [treeAfter, treeAfter, hchanges]⟩
  rcases hrequest : Request.ofArgs args with e | (- | options)
  · have houtcome : outcome = e.outcome := by simp only [outcome, run, hrequest]
    rw [houtcome]
    exact ⟨fun _ => rfl, by rintro ⟨⟩⟩
  · exact absurd hrequest hhelp
  · have houtcome : outcome = produce host options := by
      simp [outcome, run, hrequest, Request.outcome, hinit options hrequest]
    rw [houtcome]
    refine ⟨stdout_produce_of_stop_ne, fun hexit => ?_⟩
    obtain ⟨block, output, hblock, houtput, hprinted⟩ := exists_stdout_produce_eq hexit
    exact ⟨options, block, output, rfl, hblock, houtput, hprinted⟩

theorem run_prints_block_kit :
    let kit : List (String × Tree) := [("a.ts", .file "x".toUTF8),
      ("components.json", .file "{}".toUTF8), ("package.json", .file "{}".toUTF8)]
    let host : Host := { tree := .dir [("kit", .dir kit)], directory := ⟨["kit"]⟩ }
    let args := ["-n", "panel"]
    Request.ofArgs args ≠ .ok .help ∧
      (∀ options, Request.ofArgs args = .ok (.run options) → options.init = false) ∧
      (∃ block, built host { name := some "panel" } = .ok block ∧
        (run host args).stdout = block.render (.lines 2) ++ "\n") ∧
      (run host ("-v" :: args)).stdout = (run host args).stdout ∧
      (run host ("-v" :: args)).stderr ≠ (run host args).stderr := by
  intro kit host args
  have hargs : Request.ofArgs args = .ok (.run { name := some "panel" }) := by decide +kernel
  have hhelp : Request.ofArgs args ≠ .ok .help := by
    rw [hargs]
    exact fun h => Request.noConfusion (Except.ok.inj h)
  have hinit : ∀ options, Request.ofArgs args = .ok (.run options) → options.init = false := by
    intro options hoptions
    obtain rfl := Request.run.inj (Except.ok.inj (hargs.symm.trans hoptions))
    rfl
  obtain ⟨-, hprints, -, hsame, -⟩ := run_prints_block host args hhelp hinit
  have hstop : (run host args).stop = .exit 0 := by decide +kernel
  obtain ⟨options, block, output, hoptions, hblock, houtput, hstdout⟩ := hprints hstop
  obtain rfl := Request.run.inj (Except.ok.inj (hargs.symm.trans hoptions))
  have hnone : outputFor host { name := some "panel" } = .ok none := by decide +kernel
  obtain rfl := Except.ok.inj (hnone.symm.trans houtput)
  exact ⟨hhelp, hinit, ⟨block, hblock, hstdout⟩, hsame, by decide +kernel⟩

end RegistryBlock.Command
