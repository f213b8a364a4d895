import Mathlib.Data.List.Basic
import Mathlib.Data.List.Find
import RegistryBlock.Proofs.Reach.Least

/-!
# Reaching files under other names

When the files of a project are moved so that different keys stay different and every file imports
the new keys of what it imported before, the files reached from moved seeds are the moved files
reached from the seeds, in the same order.
-/

namespace RegistryBlock

theorem distinctBy_map {α β γ δ : Type} [DecidableEq β] [DecidableEq δ] {f : α → β} {g : γ → δ}
    {move : α → γ} {rename : β → δ} (hinj : Function.Injective rename) {l : List α}
    (h : ∀ a ∈ l, g (move a) = rename (f a)) (seen : List β) :
    distinctBy g (seen.map rename) (l.map move) = (distinctBy f seen l).map move := by
  induction l generalizing seen with
  | nil => rfl
  | cons a l ih =>
    have hrest : ∀ b ∈ l, g (move b) = rename (f b) := fun b hb => h b (List.mem_cons_of_mem _ hb)
    have hmem : rename (f a) ∈ seen.map rename ↔ f a ∈ seen :=
      List.mem_map_of_injective hinj
    simp only [List.map_cons, distinctBy, h a List.mem_cons_self, hmem]
    split
    · exact ih hrest seen
    · rw [List.map_cons]
      exact congrArg _ (ih hrest (f a :: seen))

namespace ImportMap

/-- Whether one project is another one with its files moved. -/
structure Moved (project other : ImportMap) (move : SourceFile → SourceFile)
    (rename : String → String) : Prop where
  injective : Function.Injective rename
  files_eq : other.files = project.files.map move
  key_move : ∀ file ∈ project.files, (move file).key = rename file.key
  imports_move : ∀ file ∈ project.files,
    other.imports (move file) = (project.imports file).map rename

namespace Moved

variable {project other : ImportMap} {move : SourceFile → SourceFile} {rename : String → String}

theorem find?_rename (h : Moved project other move rename) (key : String) :
    SourceFile.find? other.files (rename key) =
      (SourceFile.find? project.files key).map move := by
  rw [h.files_eq, SourceFile.find?, SourceFile.find?, List.find?_map]
  refine congrArg _ (List.find?_congr fun file hfile => ?_)
  simp [h.key_move file hfile, h.injective.eq_iff]

theorem newKeys_move (h : Moved project other move rename) {file : SourceFile}
    (hfile : file ∈ project.files) (found : List String) :
    other.newKeys (found.map rename) (move file) = (project.newKeys found file).map rename := by
  rw [newKeys_eq, newKeys_eq, h.imports_move file hfile]
  exact distinctBy_map (f := id) (g := id) h.injective (fun _ _ => rfl) found

theorem newFiles_move (h : Moved project other move rename) {file : SourceFile}
    (hfile : file ∈ project.files) (found : List String) :
    other.newFiles (found.map rename) (move file) = (project.newFiles found file).map move := by
  rw [newFiles, h.newKeys_move hfile, List.filterMap_map, newFiles, List.map_filterMap]
  exact List.filterMap_congr fun key _ => h.find?_rename key

theorem discovered_move (h : Moved project other move rename) {found : List String}
    {pending : List SourceFile} (hpending : ∀ file ∈ pending, file ∈ project.files) :
    other.discovered (found.map rename) (pending.map move) =
      (project.discovered found pending).map move := by
  induction found, pending using project.visits_induction with
  | nil found => simp
  | cons found file rest ih =>
    have hfile := hpending file List.mem_cons_self
    have hall : ∀ next ∈ rest ++ project.newFiles found file, next ∈ project.files := by
      intro next hnext
      rcases List.mem_append.1 hnext with hnext | hnext
      · exact hpending next (List.mem_cons_of_mem _ hnext)
      · obtain ⟨key, -, hfind⟩ := List.mem_filterMap.1 hnext
        exact SourceFile.mem_of_find?_eq_some hfind
    rw [List.map_cons, discovered_cons, discovered_cons, h.newKeys_move hfile,
      h.newFiles_move hfile, ← List.map_append, ← List.map_append, ih hall, List.map_append]

theorem reached_move (h : Moved project other move rename) {seeds : List SourceFile}
    (hseeds : ∀ seed ∈ seeds, seed ∈ project.files) :
    other.reached (seeds.map move) = (project.reached seeds).map move := by
  have hdistinct : distinctSeeds (seeds.map move) = (distinctSeeds seeds).map move :=
    distinctBy_map h.injective (fun seed hseed => h.key_move seed (hseeds seed hseed)) []
  have hfiles : ∀ seed ∈ distinctSeeds seeds, seed ∈ project.files := fun seed hseed =>
    hseeds seed ((distinctBy_sublist _ _ _).mem hseed)
  have hkeys : ((distinctSeeds seeds).map move).map SourceFile.key =
      ((distinctSeeds seeds).map SourceFile.key).map rename := by
    rw [List.map_map, List.map_map]
    exact List.map_congr_left fun seed hseed => h.key_move seed (hfiles seed hseed)
  rw [reached_eq, reached_eq, hdistinct, hkeys, h.discovered_move hfiles, List.map_append]

end Moved

end ImportMap

end RegistryBlock
