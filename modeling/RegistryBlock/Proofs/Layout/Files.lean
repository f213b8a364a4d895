import RegistryBlock.Proofs.Layout.Target
import RegistryBlock.Proofs.Reach.Renaming

/-!
# Files below the source root

A project whose files are moved below `src/` is the project with the source root set: every file
keeps its imports, so the same files are reached from the same seeds.
-/

namespace RegistryBlock

namespace SourceFile

def inSource (file : SourceFile) : SourceFile := { file with path := belowSource file.path }

/-- Whether the path of a file, written with slashes, does not begin with `./`. -/
def IsPlain (file : SourceFile) : Prop :=
  Text.startsWith "./".toList (file.path.toList.map Path.slash) = false

instance (file : SourceFile) : Decidable file.IsPlain :=
  inferInstanceAs (Decidable (_ = false))

theorem dropHere_of_startsWith_eq_false {cs : List Char}
    (h : Text.startsWith "./".toList cs = false) : Path.dropHere cs = cs := by
  unfold Path.dropHere
  split
  · exact absurd h (by simp [Text.startsWith, Text.dropFront?])
  · rfl

theorem key_inSource {file : SourceFile} (h : file.IsPlain) :
    file.inSource.key = belowSource file.key := by
  have hmoved : Text.startsWith "./".toList ((belowSource file.path).toList.map Path.slash) =
      false := by
    rw [toList_belowSource]
    rfl
  rw [key, key, Path.key, Path.key, inSource, dropHere_of_startsWith_eq_false h,
    dropHere_of_startsWith_eq_false hmoved, ← String.toList_inj]
  simp [toList_belowSource, sourceDir, Path.slash]

end SourceFile

/-- The settings and the files of a flat project whose specifiers all stay inside it. -/
structure IsFlat (settings : AliasSettings) (files : List SourceFile) : Prop where
  sourceRoot_eq : settings.sourceRoot = false
  isPlain : ∀ file ∈ files, file.IsPlain
  isNormal : ∀ file ∈ files, Path.IsNormal file.key
  staysInside : ∀ file ∈ files, ∀ specifier ∈ Specifier.locals file.content,
    Path.StaysInside (Specifier.candidate (.ofSettings settings) file.key specifier)

namespace IsFlat

variable {settings : AliasSettings} {files : List SourceFile}

theorem key_inSource (h : IsFlat settings files) {file : SourceFile} (hfile : file ∈ files) :
    file.inSource.key = belowSource file.key :=
  SourceFile.key_inSource (h.isPlain file hfile)

theorem map_key_inSource (h : IsFlat settings files) :
    (files.map SourceFile.inSource).map SourceFile.key =
      (files.map SourceFile.key).map belowSource := by
  rw [List.map_map, List.map_map]
  exact List.map_congr_left fun file hfile => h.key_inSource hfile

theorem target?_inSource (h : IsFlat settings files) {file : SourceFile} (hfile : file ∈ files)
    {specifier : String} (hspecifier : specifier ∈ Specifier.locals file.content) :
    ImportMap.target? ⟨files.map SourceFile.inSource, .ofSettings settings.withSourceRoot⟩
        file.inSource specifier =
      (ImportMap.target? ⟨files, .ofSettings settings⟩ file specifier).map belowSource := by
  rw [ImportMap.target?, ImportMap.target?, h.key_inSource hfile]
  refine Specifier.target?_withSourceRoot h.sourceRoot_eq (fun path hpath => ?_)
    (fun path hpath => ?_) (fun path => ?_) (h.isNormal file hfile)
    (h.staysInside file hfile specifier hspecifier)
  · obtain ⟨other, hother, rfl⟩ := List.mem_map.1 (SourceFile.find?_isSome_iff.1 hpath)
    exact h.isNormal other hother
  · rw [SourceFile.find?_isSome_iff, h.map_key_inSource] at hpath
    obtain ⟨flat, -, hflat⟩ := List.mem_map.1 hpath
    exact ⟨flat, hflat.symm⟩
  · rw [Bool.eq_iff_iff, SourceFile.find?_isSome_iff, SourceFile.find?_isSome_iff,
      h.map_key_inSource]
    exact List.mem_map_of_injective belowSource_injective

theorem moved (h : IsFlat settings files) :
    ImportMap.Moved ⟨files, .ofSettings settings⟩
      ⟨files.map SourceFile.inSource, .ofSettings settings.withSourceRoot⟩
      SourceFile.inSource belowSource where
  injective := belowSource_injective
  files_eq := rfl
  key_move _ hfile := h.key_inSource hfile
  imports_move file hfile := by
    have hcontent : file.inSource.content = file.content := rfl
    rw [ImportMap.imports, ImportMap.imports, hcontent, List.map_filterMap]
    exact List.filterMap_congr fun specifier hspecifier => h.target?_inSource hfile hspecifier

theorem reached_inSource (h : IsFlat settings files) {seeds : List SourceFile}
    (hseeds : seeds ⊆ files) :
    ImportMap.reached ⟨files.map SourceFile.inSource, .ofSettings settings.withSourceRoot⟩
        (seeds.map SourceFile.inSource) =
      (ImportMap.reached ⟨files, .ofSettings settings⟩ seeds).map SourceFile.inSource :=
  h.moved.reached_move hseeds

end IsFlat

end RegistryBlock
