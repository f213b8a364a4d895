import RegistryBlock.Proofs.Layout.Block
import RegistryBlock.Proofs.Reach.Least

/-!
# A file that is not reached

A file with another text in its place, or with nothing in its place, is seen only by those who
reach it. If the seeds do not lead to the file at some path, they lead to the same files whatever
stood at this path before.
-/

namespace RegistryBlock

/-- What stood in the place of a file: at the given path `old?`, elsewhere the same file. -/
def SourceFile.before (path : String) (old? : Option SourceFile) (file : SourceFile) :
    Option SourceFile :=
  if file.path = path then old? else some file

section Before

variable {path : String} {old? : Option SourceFile} {files : List SourceFile}

theorem SourceFile.before_of_ne {file : SourceFile} (h : file.path ≠ path) :
    before path old? file = some file := if_neg h

theorem SourceFile.mem_filterMap_before {file : SourceFile} (hfile : file ∈ files)
    (h : file.path ≠ path) : file ∈ files.filterMap (before path old?) :=
  List.mem_filterMap.2 ⟨file, hfile, before_of_ne h⟩

theorem SourceFile.filterMap_before_eq_self (h : ∀ file ∈ files, file.path ≠ path) :
    files.filterMap (before path old?) = files := by
  rw [List.filterMap_congr fun file hfile => before_of_ne (h file hfile)]
  exact List.filterMap_some

/-- The key of a file depends on its path alone. -/
theorem SourceFile.key_eq_of_path {file other : SourceFile} (h : file.path = other.path) :
    file.key = other.key := by
  rw [key, key, h]

/-- A file that is left out because its key is taken is left out whatever stands in its place. -/
theorem distinctBy_filterMap_before (hold : ∀ old ∈ old?, old.path = path) {seen : List String}
    (h : ∀ file ∈ distinctBy SourceFile.key seen files, file.path ≠ path) :
    distinctBy SourceFile.key seen (files.filterMap (SourceFile.before path old?)) =
      distinctBy SourceFile.key seen files := by
  induction files generalizing seen with
  | nil => rfl
  | cons file files ih =>
    rw [distinctBy] at h ⊢
    by_cases hpath : file.path = path
    · by_cases hseen : file.key ∈ seen
      · rw [if_pos hseen] at h ⊢
        rw [← ih h, List.filterMap_cons, SourceFile.before, if_pos hpath]
        cases old? with
        | none => rfl
        | some old =>
          have hkey : old.key ∈ seen := by
            rwa [SourceFile.key_eq_of_path ((hold old rfl).trans hpath.symm)]
          rw [distinctBy, if_pos hkey]
      · rw [if_neg hseen] at h
        exact absurd hpath (h file List.mem_cons_self)
    · rw [List.filterMap_cons, SourceFile.before_of_ne hpath, distinctBy]
      split
      · next hseen =>
        rw [if_pos hseen] at h
        exact ih h
      · next hseen =>
        rw [if_neg hseen] at h
        rw [ih fun other hother => h other (List.mem_cons_of_mem _ hother)]

theorem SourceFile.path_of_before_eq_some (hold : ∀ old ∈ old?, old.path = path)
    {file other : SourceFile} (h : before path old? file = some other) :
    other.path = file.path := by
  rw [before] at h
  split at h
  · next hpath => exact (hold other h).trans hpath.symm
  · rw [Option.some.inj h]

theorem SourceFile.key_of_before_eq_some (hold : ∀ old ∈ old?, old.path = path)
    {file other : SourceFile} (h : before path old? file = some other) :
    other.key = file.key :=
  key_eq_of_path (path_of_before_eq_some hold h)

theorem SourceFile.find?_filterMap_before (hold : ∀ old ∈ old?, old.path = path) {key : String}
    {file : SourceFile} (hfind : find? files key = some file) (h : file.path ≠ path) :
    find? (files.filterMap (before path old?)) key = some file := by
  induction files with
  | nil => cases hfind
  | cons first files ih =>
    by_cases hkey : first.key = key
    · rw [find?, List.find?_cons_of_pos (by simpa using hkey)] at hfind
      rw [Option.some.inj hfind] at hkey ⊢
      rw [List.filterMap_cons, before_of_ne h, find?,
        List.find?_cons_of_pos (by simpa using hkey)]
    · rw [find?, List.find?_cons_of_neg (by simpa using hkey)] at hfind
      rw [List.filterMap_cons]
      cases hbefore : before path old? first with
      | none => exact ih hfind
      | some other =>
        have hother : other.key ≠ key := by rwa [key_of_before_eq_some hold hbefore]
        rw [find?, List.find?_cons_of_neg (by simpa using hother)]
        exact ih hfind

theorem SourceFile.find?_filterMap_before_eq_none (hold : ∀ old ∈ old?, old.path = path)
    {key : String} (hfind : find? files key = none) :
    find? (files.filterMap (before path old?)) key = none := by
  rw [find?, List.find?_eq_none] at hfind ⊢
  intro other hother
  obtain ⟨file, hfile, hbefore⟩ := List.mem_filterMap.1 hother
  rw [key_of_before_eq_some hold hbefore]
  exact hfind file hfile

end Before

/-- Knowing less makes no difference where the path that is found is known. -/
theorem find?_eq_of_imp {α : Type} {known other : α → Bool}
    (hless : ∀ a, known a = true → other a = true) {l : List α}
    (hfound : ∀ a, l.find? other = some a → known a = true) : l.find? known = l.find? other := by
  induction l with
  | nil => rfl
  | cons a l ih =>
    cases ha : other a with
    | true =>
      have hfirst := List.find?_cons_of_pos (l := l) ha
      rw [hfirst, List.find?_cons_of_pos (hfound a hfirst)]
    | false =>
      have hunknown : ¬ known a = true := fun h => by
        have := hless a h
        rw [ha] at this
        cases this
      have hrest := List.find?_cons_of_neg (l := l) (by simp [ha] : ¬ other a = true)
      rw [hrest, List.find?_cons_of_neg hunknown]
      exact ih fun b hb => hfound b (hrest.trans hb)

theorem Specifier.target?_eq_of_imp {table : AliasTable} {known other : String → Bool}
    {importer specifier : String} (hless : ∀ path, known path = true → other path = true)
    (hfound : ∀ path, target? table other importer specifier = some path → known path = true) :
    target? table known importer specifier = target? table other importer specifier := by
  unfold target? at hfound ⊢
  dsimp only at hfound ⊢
  split
  · rfl
  · next hinside =>
    rw [if_neg hinside] at hfound
    exact find?_eq_of_imp hless hfound

namespace ImportMap

/-- Where all files that are visited import the same, and all that are added are the same, the
same files are added. -/
theorem discovered_congr {project other : ImportMap} {found : List String}
    {pending : List SourceFile}
    (himports : ∀ file ∈ pending ++ other.discovered found pending,
      project.imports file = other.imports file)
    (hfind : ∀ file ∈ other.discovered found pending,
      SourceFile.find? project.files file.key = some file) :
    project.discovered found pending = other.discovered found pending := by
  induction found, pending using other.visits_induction with
  | nil found => rw [discovered_nil, discovered_nil]
  | cons found file rest ih =>
    rw [discovered_cons] at himports hfind
    have hkeys : project.newKeys found file = other.newKeys found file := by
      rw [newKeys_eq, newKeys_eq, himports file List.mem_cons_self]
    have hfiles : project.newFiles found file = other.newFiles found file := by
      rw [newFiles, newFiles, hkeys]
      refine List.filterMap_congr fun key hkey => ?_
      have hisSome := SourceFile.find?_isSome_iff.2 (other.mem_keys_of_mem_newKeys hkey)
      obtain ⟨next, hnext⟩ := Option.isSome_iff_exists.1 hisSome
      have hadded : next ∈ other.newFiles found file := List.mem_filterMap.2 ⟨key, hkey, hnext⟩
      obtain rfl := SourceFile.key_of_find?_eq_some hnext
      rw [hnext, hfind next (List.mem_append_left _ hadded)]
    rw [discovered_cons, discovered_cons, hkeys, hfiles, ih]
    · intro next hnext
      rw [List.append_assoc] at hnext
      exact himports next (List.mem_cons_of_mem _ hnext)
    · exact fun next hnext => hfind next (List.mem_append_right _ hnext)

section Before

variable {path : String} {old? : Option SourceFile} {files seeds : List SourceFile}
  {table : AliasTable}

/-- Specifiers lead to the same keys where they lead to keys that were there before. -/
theorem imports_filterMap_before (hold : ∀ old ∈ old?, old.path = path) {file : SourceFile}
    (hkeys : ∀ key ∈ imports ⟨files, table⟩ file,
      (SourceFile.find? (files.filterMap (SourceFile.before path old?)) key).isSome) :
    imports ⟨files.filterMap (SourceFile.before path old?), table⟩ file =
      imports ⟨files, table⟩ file := by
  refine List.filterMap_congr fun specifier hspecifier => ?_
  refine Specifier.target?_eq_of_imp (fun key hkey => ?_) (fun key hkey => ?_)
  · by_contra hunknown
    rw [Bool.not_eq_true, Option.isSome_eq_false_iff, Option.isNone_iff_eq_none] at hunknown
    rw [SourceFile.find?_filterMap_before_eq_none hold hunknown] at hkey
    cases hkey
  · exact hkeys key (List.mem_filterMap.2 ⟨specifier, hspecifier, hkey⟩)

/-- Without the file at a path, or with another one there, the same files are reached if this file
is not among them. -/
theorem reached_filterMap_before (hold : ∀ old ∈ old?, old.path = path) (hseeds : seeds ⊆ files)
    (h : ∀ file ∈ reached ⟨files, table⟩ seeds, file.path ≠ path) :
    reached ⟨files.filterMap (SourceFile.before path old?), table⟩
        (seeds.filterMap (SourceFile.before path old?)) =
      reached ⟨files, table⟩ seeds := by
  have hfiles : reached ⟨files, table⟩ seeds ⊆ files := reached_subset hseeds
  have hdistinct : distinctSeeds (seeds.filterMap (SourceFile.before path old?)) =
      distinctSeeds seeds := by
    refine distinctBy_filterMap_before hold fun file hfile => h file ?_
    rw [reached_eq]
    exact List.mem_append_left _ hfile
  rw [reached_eq, reached_eq, hdistinct]
  rw [reached_eq] at h hfiles
  congr 1
  refine discovered_congr (fun file hfile => ?_) (fun file hfile => ?_)
  · refine imports_filterMap_before hold fun key hkey => ?_
    have hfound := mem_found_of_mem_imports _ hfile hkey
    rw [← List.map_append] at hfound
    obtain ⟨next, hnext, rfl⟩ := List.mem_map.1 hfound
    rw [SourceFile.find?_isSome_iff]
    exact List.mem_map_of_mem
      (SourceFile.mem_filterMap_before (hfiles hnext) (h next hnext))
  · exact SourceFile.find?_filterMap_before hold (find?_key_of_mem_discovered _ hfile)
      (h file (List.mem_append_right _ hfile))

end Before

end ImportMap

end RegistryBlock
