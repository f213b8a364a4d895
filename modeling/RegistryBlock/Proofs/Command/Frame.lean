import RegistryBlock.Command.Run
import RegistryBlock.Proofs.Basic
import RegistryBlock.Proofs.Project.Run
import RegistryBlock.Proofs.Tree.Rewrite

/-!
# What a command line leaves on disk

A run that does not start the history anew reads the project and writes one file at most: its last
act, when the block is there and a file was chosen for it, is to write this file. A run that fails
leaves the tree as it was.
-/

namespace RegistryBlock.Command

variable {host : Host} {options : Options} {block : Block} {output : Option WrittenPath}

/-- The block that a run puts out, if it gets that far. -/
def built (host : Host) (options : Options) : Except Failure Block :=
  (build host.git host.tree (.ofLocation host.directory) options.order host.yaml).finish.1

def treeAfter (host : Host) (outcome : Outcome) : Tree :=
  Change.applyAll host.tree outcome.changes

theorem result_prepare_eq_ok_iff :
    (prepare host options).finish.1 = .ok (block, output) ↔
      built host options = .ok block ∧ outputFor host options = .ok output := by
  rw [built, prepare, RunM.finish_eq, RunM.finish_eq, RunM.runFrom_bind]
  generalize build host.git host.tree (.ofLocation host.directory) options.order host.yaml = run
  rcases run.runFrom {} with ⟨failure | found, later⟩
  · simp
  · simp only [RunM.runFrom_bind, RunM.runFrom_ofExcept]
    cases outputFor host options <;> simp

/-- The file that a path on the command line or in the settings leads to. -/
def placeFor (host : Host) (path : WrittenPath) : WrittenPath :=
  (WrittenPath.ofLocation host.directory).append path

/-- How a run ends that is to build a block: it fails and changes nothing, or it prints the block,
or it writes the block to the chosen file. -/
inductive Concludes (host : Host) (options : Options) (outcome : Outcome) : Prop where
  | failed (hstop : outcome.stop ≠ .exit 0) (hchanges : outcome.changes = [])
  | printed {block : Block} (hstop : outcome.stop = .exit 0)
      (hblock : built host options = .ok block) (houtput : outputFor host options = .ok none)
      (hstdout : outcome.stdout = payload block) (hchanges : outcome.changes = [])
  | written {block : Block} {path : WrittenPath} {loc : Location}
      (hstop : outcome.stop = .exit 0) (hblock : built host options = .ok block)
      (houtput : outputFor host options = .ok (some path))
      (hloc : host.tree.writable (placeFor host path) = .ok loc) (hstdout : outcome.stdout = "")
      (hchanges : outcome.changes = [.write loc (payload block)])

theorem produce_concludes (host : Host) (options : Options) :
    Concludes host options (produce host options) := by
  unfold produce
  rcases hprepare : (prepare host options).finish with ⟨failure | ⟨block, output⟩, trace⟩
  · dsimp only
    cases farewell? failure with
    | none => exact .failed (by simp) rfl
    | some words => exact .failed (by simp) rfl
  · obtain ⟨hblock, houtput⟩ := result_prepare_eq_ok_iff.1 (congrArg Prod.fst hprepare)
    cases output with
    | none => exact .printed rfl hblock houtput rfl rfl
    | some path =>
      dsimp only [deliver]
      cases hloc : host.tree.writable ((WrittenPath.ofLocation host.directory).append path) with
      | error fault => exact .failed (by simp) rfl
      | ok loc => exact .written rfl hblock houtput hloc rfl rfl

/-- A run that does not start the history anew leaves the tree as it was if it fails or prints what
it was asked for. Otherwise it leaves the chosen file with the text of the block, which is what it
would have printed, and everything else as it was. -/
theorem run_frame (host : Host) (args : List String)
    (h : ∀ options, Request.ofArgs args = .ok (.run options) → options.init = false) :
    let outcome := run host args
    let after := treeAfter host outcome
    (outcome.stop ≠ .exit 0 → after = host.tree) ∧
    (outcome.stop = .exit 0 →
      Request.ofArgs args = .ok .help ∧ after = host.tree ∨
      ∃ options block, Request.ofArgs args = .ok (.run options) ∧
        built host options = .ok block ∧
        (outputFor host options = .ok none ∧
            outcome.stdout = block.render (.lines 2) ++ "\n" ∧ after = host.tree ∨
          ∃ path loc, outputFor host options = .ok (some path) ∧ outcome.stdout = "" ∧
            after.locate (placeFor host path) = .ok loc ∧
            ∀ names, after.look names =
              if names = loc.names then some (some (block.render (.lines 2) ++ "\n").toUTF8)
              else host.tree.look names)) := by
  intro outcome after
  have hkept (hchanges : outcome.changes = []) : after = host.tree := by
    simp only [after, treeAfter, hchanges]
    rfl
  rcases hrequest : Request.ofArgs args with e | (- | options)
  · have houtcome : outcome = e.outcome := by simp only [outcome, run, hrequest]
    rw [houtcome] at hkept
    exact ⟨fun _ => hkept rfl, fun hstop => by rw [houtcome] at hstop; cases hstop⟩
  · have houtcome : outcome = { stdout := helpText } := by
      simp only [outcome, run, hrequest, Request.outcome]
    rw [houtcome] at hkept
    exact ⟨fun _ => hkept rfl, fun _ => Or.inl ⟨rfl, hkept rfl⟩⟩
  · have hinit := h options hrequest
    have houtcome : outcome = produce host options := by
      simp [outcome, run, hrequest, Request.outcome, hinit]
    have hconcludes := produce_concludes host options
    rw [← houtcome] at hconcludes
    cases hconcludes with
    | failed hstop hchanges => exact ⟨fun _ => hkept hchanges, fun hexit => absurd hexit hstop⟩
    | @printed block hstop hblock houtput hstdout hchanges =>
      refine ⟨fun hexit => absurd hstop hexit, fun _ => Or.inr ⟨options, block, rfl, hblock, ?_⟩⟩
      exact Or.inl ⟨houtput, hstdout, hkept hchanges⟩
    | @written block path loc hstop hblock houtput hloc hstdout hchanges =>
      refine ⟨fun hexit => absurd hstop hexit, fun _ => Or.inr ⟨options, block, rfl, hblock, ?_⟩⟩
      have hafter : after = host.tree.set loc (.file (payload block).toUTF8) := by
        simp only [after, treeAfter, hchanges]
        rfl
      have hrewritten := Tree.rewritten_set hloc (payload block).toUTF8
      rw [← hafter] at hrewritten
      exact Or.inr ⟨path, loc, houtput, hstdout, hrewritten.locate_eq_ok hloc, hrewritten.look_eq⟩

theorem run_frame_kit :
    let kit : List (String × Tree) := [("a.ts", .file "x".toUTF8),
      ("components.json", .file "{}".toUTF8), ("package.json", .file "{}".toUTF8)]
    let host : Host := { tree := .dir [("kit", .dir kit)], directory := ⟨["kit"]⟩ }
    let args := ["-o", "block.json"]
    (∀ options, Request.ofArgs args = .ok (.run options) → options.init = false) ∧
      (run host args).stop = .exit 0 ∧
      ∃ options block, Request.ofArgs args = .ok (.run options) ∧ built host options = .ok block ∧
        ∀ names, (treeAfter host (run host args)).look names =
          if names = ["kit", "block.json"] then
            some (some (block.render (.lines 2) ++ "\n").toUTF8)
          else host.tree.look names := by
  intro kit host args
  have hargs : Request.ofArgs args = .ok (.run { output := some "block.json" }) := by
    decide +kernel
  have hinit : ∀ options, Request.ofArgs args = .ok (.run options) → options.init = false := by
    intro options hoptions
    obtain rfl := Request.run.inj (Except.ok.inj (hargs.symm.trans hoptions))
    rfl
  have hstop : (run host args).stop = .exit 0 := by decide +kernel
  refine ⟨hinit, hstop, ?_⟩
  rcases (run_frame host args hinit).2 hstop with ⟨hhelp, -⟩ | ⟨options, block, hoptions, hblock, h⟩
  · cases hargs.symm.trans hhelp
  · obtain rfl := Request.run.inj (Except.ok.inj (hargs.symm.trans hoptions))
    rcases h with ⟨hnone, -⟩ | ⟨path, loc, hpath, -, hloc, hlook⟩
    · cases hnone
    · obtain rfl := Option.some.inj (Except.ok.inj hpath)
      have hplace : (treeAfter host (run host args)).locate
          (placeFor host (.ofString "block.json")) = .ok ⟨["kit", "block.json"]⟩ := by
        decide +kernel
      obtain rfl := Except.ok.inj (hloc.symm.trans hplace)
      exact ⟨_, block, hargs, hblock, hlook⟩

end RegistryBlock.Command
