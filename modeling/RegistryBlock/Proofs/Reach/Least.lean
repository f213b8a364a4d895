import Mathlib.Data.Set.Basic
import Mathlib.Order.Bounds.Defs
import RegistryBlock.Proofs.Reach.Visits

/-!
# The reached files as a least set

A set of keys is closed when it holds the keys of the seeds and, with the key of a file, the keys
of all that the file imports. The keys of the reached files are the least closed set. The file of
a key is the first seed that bears it, and a file of the project only where no seed does.
-/

namespace RegistryBlock.ImportMap

variable (project : ImportMap) (seeds : List SourceFile)

/-- The file that a key stands for: the first seed with it, else the first file of the project. -/
def fileOf? (key : String) : Option SourceFile :=
  (SourceFile.find? seeds key).or (SourceFile.find? project.files key)

/-- Whether the file of one key has a local specifier that leads to another key. -/
def Imports (key other : String) : Prop :=
  ∃ file, project.fileOf? seeds key = some file ∧
    ∃ specifier ∈ Specifier.locals file.content,
      Specifier.target? project.table project.keys.contains key specifier = some other

/-- Whether a set of keys holds the seeds and everything that its files import. -/
structure IsClosed (keys : Set String) : Prop where
  seed_mem : ∀ seed ∈ seeds, seed.key ∈ keys
  import_mem : ∀ key ∈ keys, ∀ other, project.Imports seeds key other → other ∈ keys

abbrev distinctSeeds : List SourceFile := distinctBy SourceFile.key [] seeds

theorem nodup_key_distinctSeeds : ((distinctSeeds seeds).map SourceFile.key).Nodup :=
  nodup_map_distinctBy SourceFile.key [] seeds

theorem mem_key_distinctSeeds {key : String} :
    key ∈ (distinctSeeds seeds).map SourceFile.key ↔ key ∈ seeds.map SourceFile.key := by
  rw [mem_map_distinctBy]
  simp

/-- The first file with a key is the one that is kept. -/
theorem find?_key_of_mem_distinctBy {seen : List String} {files : List SourceFile}
    {file : SourceFile} (h : file ∈ distinctBy SourceFile.key seen files) :
    SourceFile.find? files file.key = some file := by
  induction files generalizing seen with
  | nil => simp [distinctBy] at h
  | cons first rest ih =>
    have hseen : file.key ∉ seen :=
      (mem_map_distinctBy.1 (List.mem_map_of_mem (f := SourceFile.key) h)).2
    simp only [distinctBy] at h
    split at h
    · next hfirst =>
      have hne : first.key ≠ file.key := fun he => hseen (he ▸ hfirst)
      rw [SourceFile.find?, List.find?_cons_of_neg (by simpa using hne)]
      exact ih h
    · rcases List.mem_cons.1 h with rfl | h
      · simp [SourceFile.find?]
      · have hne : first.key ≠ file.key := by
          rintro he
          have := (mem_map_distinctBy.1 (List.mem_map_of_mem (f := SourceFile.key) h)).2
          exact this (he ▸ List.mem_cons_self)
        rw [SourceFile.find?, List.find?_cons_of_neg (by simpa using hne)]
        exact ih h

theorem reached_eq :
    project.reached seeds = distinctSeeds seeds ++
      project.discovered ((distinctSeeds seeds).map SourceFile.key) (distinctSeeds seeds) := by
  rw [reached, visitFrom]
  exact project.map_file_visits _ _

theorem target?_eq_target?_contains (file : SourceFile) (specifier : String) :
    project.target? file specifier =
      Specifier.target? project.table project.keys.contains file.key specifier := by
  have h : (fun key => (SourceFile.find? project.files key).isSome) = project.keys.contains := by
    funext key
    rw [Bool.eq_iff_iff, SourceFile.find?_isSome_iff, List.contains_iff_mem]
    rfl
  rw [target?, h]

/-- The imports of a file as the keys that it is related to. -/
theorem mem_imports_iff {file : SourceFile} (hfile : project.fileOf? seeds file.key = some file)
    {other : String} :
    other ∈ project.imports file ↔ project.Imports seeds file.key other := by
  simp only [imports, List.mem_filterMap, target?_eq_target?_contains, Imports, hfile,
    Option.some.injEq, exists_eq_left']

theorem nodup_key_reached : ((project.reached seeds).map SourceFile.key).Nodup := by
  rw [reached_eq, List.map_append]
  exact project.nodup_append_discovered _ (nodup_key_distinctSeeds seeds)

theorem fileOf?_key_of_mem_reached {file : SourceFile} (h : file ∈ project.reached seeds) :
    project.fileOf? seeds file.key = some file := by
  have hnodup := project.nodup_key_reached seeds
  rw [reached_eq, List.map_append, List.nodup_append] at hnodup
  rw [reached_eq, List.mem_append] at h
  rcases h with h | h
  · rw [fileOf?, find?_key_of_mem_distinctBy h, Option.some_or]
  · have hnone : SourceFile.find? seeds file.key = none := by
      rw [← Option.not_isSome_iff_eq_none, SourceFile.find?_isSome_iff, ← mem_key_distinctSeeds]
      intro hseed
      exact hnodup.2.2 _ hseed _ (List.mem_map_of_mem h) rfl
    rw [fileOf?, hnone, Option.none_or, project.find?_key_of_mem_discovered h]

theorem isClosed_reached :
    project.IsClosed seeds {key | key ∈ (project.reached seeds).map SourceFile.key} where
  seed_mem seed hseed := by
    have := (mem_key_distinctSeeds seeds).2 (List.mem_map_of_mem (f := SourceFile.key) hseed)
    rw [Set.mem_ofPred_eq, reached_eq, List.map_append]
    exact List.mem_append_left _ this
  import_mem key hkey other hother := by
    obtain ⟨file, hfile, rfl⟩ := List.mem_map.1 hkey
    have hother := (project.mem_imports_iff seeds
      (project.fileOf?_key_of_mem_reached seeds hfile)).2 hother
    rw [reached_eq] at hfile
    rw [Set.mem_ofPred_eq, reached_eq, List.map_append]
    exact project.mem_found_of_mem_imports hfile hother

/-- Nothing is reached that a closed set leaves out. -/
theorem key_mem_of_isClosed {keys : Set String} (hkeys : project.IsClosed seeds keys)
    {file : SourceFile} (h : file ∈ project.reached seeds) : file.key ∈ keys := by
  have hseeds : ∀ seed ∈ distinctSeeds seeds, seed.key ∈ keys := fun seed hseed =>
    hkeys.seed_mem seed ((distinctBy_sublist _ _ _).mem hseed)
  rw [reached_eq, List.mem_append] at h
  rcases h with h | h
  · exact hseeds file h
  -- The file of the key goes along: `Imports` reads the specifiers of that file and of no other.
  · refine (project.forall_mem_discovered
      (P := fun file => file.key ∈ keys ∧ project.fileOf? seeds file.key = some file)
      (fun seed hseed => ⟨hseeds seed hseed, ?_⟩) ?_ file h).1
    · rw [fileOf?, find?_key_of_mem_distinctBy hseed, Option.some_or]
    · rintro file ⟨hmem, hfile⟩ key hkey hfound next hnext
      have himport := (project.mem_imports_iff seeds hfile).1 hkey
      obtain rfl := SourceFile.key_of_find?_eq_some hnext
      refine ⟨hkeys.import_mem _ hmem _ himport, ?_⟩
      rw [mem_key_distinctSeeds, ← SourceFile.find?_isSome_iff,
        Option.not_isSome_iff_eq_none] at hfound
      rw [fileOf?, hfound, Option.none_or, hnext]

/-- A key that a visit finds is that of a project file, and this file is reached. -/
theorem exists_reached_of_new_mem_findings {visit : Visit} (h : visit ∈ project.visitFrom seeds)
    {key : String} (hkey : .new key ∈ visit.findings) :
    ∃ file ∈ project.reached seeds, SourceFile.find? project.files key = some file := by
  have hisSome := SourceFile.find?_isSome_iff.2 (project.mem_keys_of_new_mem_findings h hkey)
  obtain ⟨file, hfile⟩ := Option.isSome_iff_exists.1 hisSome
  refine ⟨file, ?_, hfile⟩
  have hnew : key ∈ visit.findings.filterMap Finding.newKey? :=
    List.mem_filterMap.2 ⟨_, hkey, rfl⟩
  rw [reached_eq]
  exact List.mem_append_right _
    (List.mem_flatMap.2 ⟨visit, h, List.mem_filterMap.2 ⟨key, hnew, hfile⟩⟩)

/-- The reached files have different keys, and these are the least set that holds the keys of the
seeds and whatever its files import. Each file is the one that its key stands for, the seeds come
first, and a key that is found on the way always has its file. -/
theorem key_reached_isLeast (settings : AliasSettings) (files seeds : List SourceFile) :
    let project : ImportMap := ⟨files, .ofSettings settings⟩
    let result := project.reached seeds
    (result.map SourceFile.key).Nodup ∧
      IsLeast {keys | project.IsClosed seeds keys} {key | key ∈ result.map SourceFile.key} ∧
      (∀ file ∈ result, project.fileOf? seeds file.key = some file) ∧
      distinctSeeds seeds <+: result ∧
      ∀ visit ∈ project.visitFrom seeds, ∀ key, .new key ∈ visit.findings →
        ∃ file ∈ result, SourceFile.find? files key = some file := by
  intro project result
  refine ⟨project.nodup_key_reached seeds, ⟨project.isClosed_reached seeds, ?_⟩,
    fun file => project.fileOf?_key_of_mem_reached seeds, ?_,
    fun visit hvisit key => project.exists_reached_of_new_mem_findings seeds hvisit⟩
  · rintro keys hkeys key hkey
    obtain ⟨file, hfile, rfl⟩ := List.mem_map.1 hkey
    exact project.key_mem_of_isClosed seeds hkeys hfile
  · exact ⟨_, (project.reached_eq seeds).symm⟩

end RegistryBlock.ImportMap
