import RegistryBlock.Block.Assembly
import RegistryBlock.Proofs.Layout.Candidate

/-!
# Places of files

The entry of a file bears the path of the file, seen from the directory of the sources if the file
lies there. What is installed loses one more `src/` at its front, unless it is a style sheet. So two
files can come to one place only if their keys differ by such fronts.
-/

namespace RegistryBlock

/-! ### Paths without the source root -/

/-- The path seen from the directory of the sources, if it lies there. -/
def withoutSource (path : String) : String := String.ofList (Placement.dropSourceRoot path.toList)

theorem dropFront?_belowSource (path : String) :
    Text.dropFront? "src/".toList (belowSource path).toList = some path.toList :=
  Text.dropFront?_eq_some_iff.2 (String.toList_append ..)

theorem eq_belowSource_of_dropFront?_eq_some {path : String} {rest : List Char}
    (h : Text.dropFront? "src/".toList path.toList = some rest) :
    path = belowSource (String.ofList rest) := by
  have hlist := Text.dropFront?_eq_some_iff.1 h
  simpa [← String.toList_inj, belowSource] using hlist

theorem dropFront?_eq_none_iff_belowSource {path : String} :
    Text.dropFront? "src/".toList path.toList = none ↔ ∀ inner, path ≠ belowSource inner := by
  constructor
  · rintro h inner rfl
    rw [dropFront?_belowSource] at h
    cases h
  · intro h
    cases hdrop : Text.dropFront? "src/".toList path.toList with
    | none => rfl
    | some rest => exact absurd (eq_belowSource_of_dropFront?_eq_some hdrop) (h _)

theorem withoutSource_belowSource (path : String) : withoutSource (belowSource path) = path := by
  rw [withoutSource, Placement.dropSourceRoot, dropFront?_belowSource, Option.getD_some,
    String.ofList_toList]

/-- A path lies below the directory of the sources, or the directory cannot be taken from it. -/
theorem withoutSource_cases (path : String) :
    path = belowSource (withoutSource path) ∨
      withoutSource path = path ∧ ∀ inner, path ≠ belowSource inner := by
  rw [withoutSource, Placement.dropSourceRoot]
  cases hdrop : Text.dropFront? "src/".toList path.toList with
  | none => exact Or.inr ⟨String.ofList_toList, dropFront?_eq_none_iff_belowSource.1 hdrop⟩
  | some rest => exact Or.inl (eq_belowSource_of_dropFront?_eq_some hdrop)

theorem withoutSource_of_ne {path : String} (h : ∀ inner, path ≠ belowSource inner) :
    withoutSource path = path :=
  (withoutSource_cases path).elim (fun hpath => absurd hpath (h _)) And.left

theorem ne_belowSource (path : String) : path ≠ belowSource path := by
  intro h
  have hlength := congrArg (fun s : String => s.toList.length) h
  simp only [toList_belowSource, sourceDir, List.length_append, List.length_cons] at hlength
  omega

/-- Different paths are the same without the source root if one of them is the other one below the
source root, and the other one is not below it already. -/
theorem withoutSource_eq_iff {path other : String} (hne : path ≠ other) :
    withoutSource path = withoutSource other ↔
      path = belowSource other ∧ (∀ inner, other ≠ belowSource inner) ∨
        other = belowSource path ∧ ∀ inner, path ≠ belowSource inner := by
  constructor
  · intro h
    rcases withoutSource_cases path with hpath | ⟨hpath, hflat⟩ <;>
      rcases withoutSource_cases other with hother | ⟨hother, hflat'⟩
    · exact absurd (by rw [hpath, h, ← hother]) hne
    · exact Or.inl ⟨by rw [hpath, h, hother], hflat'⟩
    · exact Or.inr ⟨by rw [hother, ← h, hpath], hflat⟩
    · exact absurd (by rw [← hpath, h, hother]) hne
  · rintro (⟨rfl, hflat⟩ | ⟨rfl, hflat⟩)
    · rw [withoutSource_belowSource, withoutSource_of_ne hflat]
    · rw [withoutSource_belowSource, withoutSource_of_ne hflat]

theorem Path.IsNormal.of_belowSource {path : String} (h : IsNormal (belowSource path)) :
    IsNormal path := by
  obtain ⟨hback, hnames⟩ := h
  rw [toList_belowSource] at hback hnames
  refine ⟨fun hmem => hback (by simp [hmem]), fun seg hseg => hnames seg ?_⟩
  rw [segments_append_cons]
  exact List.mem_append_right _ hseg

namespace SourceFile

variable (settings : AliasSettings) (file : SourceFile)

/-- The path of the file in a block, without the `./` in front of it. -/
def place : String := if settings.sourceRoot then withoutSource file.key else file.key

/-- The path that the file is installed under, if it is no style sheet. -/
def installPath : String := withoutSource (file.place settings)

def isSource : Bool :=
  if settings.sourceRoot then (Text.dropFront? "src/".toList file.key.toList).isSome
  else file.key ∈ Kit.aliasedPaths settings || Text.startsWith "app/".toList file.key.toList

/-- The key of a file is its place, or its place below the source root. -/
theorem key_eq_place_or :
    file.key = file.place settings ∨ file.key = belowSource (file.place settings) := by
  rw [place]
  split
  · exact (withoutSource_cases file.key).symm.imp (fun h => h.1.symm) id
  · exact Or.inl rfl

variable {settings file} {other : SourceFile}

theorem isNormal_place (h : Path.IsNormal file.key) : Path.IsNormal (file.place settings) := by
  rw [place]
  split
  · rcases withoutSource_cases file.key with hkey | ⟨hkey, -⟩
    · rw [hkey] at h
      exact h.of_belowSource
    · rwa [hkey]
  · exact h

/-- Different files have one place only if the layout has a source root and one of them is the other
one below it. -/
theorem place_eq_iff (hne : file.key ≠ other.key) :
    file.place settings = other.place settings ↔
      settings.sourceRoot = true ∧
        (file.key = belowSource other.key ∧ (∀ path, other.key ≠ belowSource path) ∨
          other.key = belowSource file.key ∧ ∀ path, file.key ≠ belowSource path) := by
  rw [place, place]
  by_cases hroot : settings.sourceRoot = true
  · rw [if_pos hroot, if_pos hroot, withoutSource_eq_iff hne]
    exact (and_iff_right hroot).symm
  · simp [hroot, hne]

/-- If different files have one place, exactly one of them counts as a source. -/
theorem isSource_ne_of_place_eq (hne : file.key ≠ other.key)
    (h : file.place settings = other.place settings) :
    file.isSource settings ≠ other.isSource settings := by
  obtain ⟨hroot, hkeys⟩ := (place_eq_iff hne).1 h
  rw [isSource, isSource, if_pos hroot, if_pos hroot]
  rcases hkeys with ⟨hfile, hother⟩ | ⟨hother, hfile⟩
  · rw [hfile, dropFront?_belowSource, dropFront?_eq_none_iff_belowSource.2 hother]
    simp
  · rw [hother, dropFront?_belowSource, dropFront?_eq_none_iff_belowSource.2 hfile]
    simp

variable (settings file) in
/-- The role of the file and where it is installed, judged by its place. -/
def placement : Placement :=
  .ofKey settings (file.place settings) (file.isSource settings)

/-- The entry of a file bears its place and what follows from it. -/
theorem ofSource_eq (h : Path.IsNormal file.key) :
    BlockFile.ofSource settings file =
      { path := "./" ++ file.place settings
        content := file.content
        type := (file.placement settings).role.label
        target := (file.placement settings).target } := by
  have hplace : Path.IsNormal (file.place settings) := isNormal_place h
  suffices heq : BlockFile.ofSource settings file =
      .ofKey settings (file.place settings) file.content (file.isSource settings) from heq
  rw [BlockFile.ofSource, isSource]
  by_cases hroot : settings.sourceRoot = true
  · rw [if_pos hroot, if_pos hroot]
    rw [place, if_pos hroot, withoutSource, Placement.dropSourceRoot] at hplace ⊢
    cases hdrop : Text.dropFront? "src/".toList file.key.toList with
    | none => simp [Path.key_of_isNormal h]
    | some rest =>
      rw [hdrop, Option.getD_some] at hplace
      simp [Path.key_of_isNormal hplace]
  · rw [if_neg hroot, if_neg hroot, place, if_neg hroot, Path.key_of_isNormal h]

end SourceFile

end RegistryBlock
