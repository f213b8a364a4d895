import RegistryBlock.Project.Build
import RegistryBlock.Proofs.Layout.Block
import RegistryBlock.Proofs.Basic
import RegistryBlock.Proofs.Project.Log
import RegistryBlock.Proofs.Project.Scan
import RegistryBlock.Proofs.Tree.Follow

/-!
# What a block is built from

A block is built in stages: the settings, the files, the seeds, the manifest, the aliases, the
block. The result of the run is that of the stages one after the other.
-/

namespace RegistryBlock

open RunM

variable {yaml : Yaml.Reader}

theorem IgnoreRule.isQuiet_load (tree : Tree) (root : Location) :
    IsQuiet (load tree root yaml) := by
  refine (isQuiet_ofExcept _).bind fun own => IsQuiet.bind ?_ fun settings => isQuiet_pure _
  unfold fromSettings
  split
  · exact isQuiet_pure _
  · exact (isQuiet_log ..).bind fun _ => isQuiet_pure _
  · exact isQuiet_throw _

theorem isQuiet_scanProject (tree : Tree) (path : WrittenPath) :
    IsQuiet (scanProject tree path yaml) := by
  unfold scanProject
  refine IsQuiet.ite (isQuiet_throw_bind ..) (IsQuiet.ite (isQuiet_throw_bind ..) ?_)
  refine (IgnoreRule.isQuiet_load ..).bind fun rules => (isQuiet_forIn_log ..).bind fun _ => ?_
  exact (isQuiet_log ..).bind fun _ => isQuiet_pure _

namespace History

theorem ignoresLog_isAltered (git : Git) (repo : Location) (commit : String)
    (paths : List String) (file : SourceFile) :
    IgnoresLog (isAltered git repo commit paths file) := by
  unfold isAltered
  split
  · exact (ignoresLog_call ..).bind fun text => (isQuiet_pure _).ignoresLog
  · exact (isQuiet_pure _).ignoresLog

theorem ignoresLog_alteredSince (git : Git) (repo : Location) (commit : String)
    (paths : List String) (files : List SourceFile) :
    IgnoresLog (alteredSince git repo commit paths files) := by
  induction files with
  | nil => exact (isQuiet_pure _).ignoresLog
  | cons file files ih =>
    exact (ignoresLog_isAltered ..).bind fun altered => ih.bind fun more =>
      (isQuiet_pure _).ignoresLog

theorem ignoresLog_ofGit {α : Type} (result : Except Git.Error α) :
    IgnoresLog (ofGit result) := by
  cases result with
  | error e => exact (isQuiet_throw _).ignoresLog
  | ok a => exact (isQuiet_pure _).ignoresLog

theorem ignoresLog_firstCommit (git : Git) (repo : Location) :
    IgnoresLog (firstCommit git repo) := by
  refine (ignoresLog_call ..).bind fun output => ?_
  split
  · exact (isQuiet_pure _).ignoresLog
  · exact (isQuiet_throw _).ignoresLog

theorem ignoresLog_alteredFiles (git : Git) (tree : Tree) (path : WrittenPath)
    (files : List SourceFile) : IgnoresLog (alteredFiles git tree path files) := by
  refine (ignoresLog_ofGit _).bind fun repo => (ignoresLog_firstCommit ..).bind fun commit => ?_
  refine (ignoresLog_call ..).bind fun listing => ?_
  refine (ignoresLog_alteredSince ..).bind fun altered => ?_
  exact ((isQuiet_log ..).bind fun _ => isQuiet_pure _).ignoresLog

end History

theorem ignoresLog_seeds (git : Git) (tree : Tree) (project folder : Location) (altered : Bool)
    (files : List SourceFile) : IgnoresLog (seeds git tree project folder altered files) := by
  unfold seeds
  split
  · exact History.ignoresLog_alteredFiles ..
  · split
    · exact (isQuiet_pure _).ignoresLog
    · exact (isQuiet_throw _).ignoresLog

theorem AliasSettings.up_not_mem_of_nearestFile? {tree : Tree} {root file : Location}
    (hup : ".." ∉ root.names) (h : nearestFile? tree root = some file) : ".." ∉ file.names := by
  obtain ⟨above, habove, rfl⟩ := List.mem_map.1 (List.mem_of_find?_eq_some h)
  have hfront : above.names <+: root.names := Location.mem_ancestors.1 habove
  exact up_not_mem_child (fun hmem => hup (hfront.subset hmem)) (by decide)

/-- The first stage that fails decides. The log plays no part, and git is called for the seeds
alone. -/
theorem result_build (git : Git) (tree : Tree) (path : WrittenPath) (order : Order) :
    (build git tree path order yaml).finish.1 =
      let project := path.resolve .root
      let folder := order.folderIn project
      Settings.load tree (.ofLocation project) yaml >>= fun settings =>
      (scanProject tree (.ofLocation project) yaml).finish.1 >>= fun files =>
      (seeds git tree project folder order.altered files).finish.1 >>= fun start =>
      manifestText tree project >>= fun manifest =>
      AliasSettings.load tree (.ofLocation project)
        (AliasSettings.hasSourceRoot tree (.ofLocation project)) >>= fun aliases =>
      (Block.ofSeeds (order.blockName settings folder) aliases start files manifest).mapError
        .manifest := by
  apply Returns.result_finish
  refine returns_ofExcept_bind _ fun settings => returns_log_bind _ _ _ ?_
  refine (isQuiet_scanProject ..).returns_bind fun files => returns_log_bind _ _ _ ?_
  refine (ignoresLog_seeds ..).returns_bind fun start calls => ?_
  refine returns_ofExcept_bind _ fun manifest => returns_ofExcept_bind _ fun aliases => ?_
  refine returns_logAll_bind _ (returns_log_bind _ _ _ ⟨fun trace hcalls => ?_⟩)
  rw [Block.ofSeeds, ImportMap.reached]
  cases Block.assemble .. <;> rfl

/-- There is a block exactly when every stage succeeds. -/
theorem result_build_eq_ok_iff {git : Git} {tree : Tree} {path : WrittenPath} {order : Order}
    {block : Block} :
    (build git tree path order yaml).finish.1 = .ok block ↔
      let project := path.resolve .root
      let folder := order.folderIn project
      ∃ settings, Settings.load tree (.ofLocation project) yaml = .ok settings ∧
      ∃ files, (scanProject tree (.ofLocation project) yaml).finish.1 = .ok files ∧
      ∃ start, (seeds git tree project folder order.altered files).finish.1 = .ok start ∧
      ∃ manifest, manifestText tree project = .ok manifest ∧
      ∃ aliases, AliasSettings.load tree (.ofLocation project)
        (AliasSettings.hasSourceRoot tree (.ofLocation project)) = .ok aliases ∧
      Block.ofSeeds (order.blockName settings folder) aliases start files manifest = .ok block := by
  simp only [result_build, bind_eq_ok_iff, mapError_eq_ok_iff]

end RegistryBlock
