import RegistryBlock.Reach

/-!
# What a run of visits finds

Every visit adds the files it is the first to lead to behind those already pending. So the visited
files are the pending ones followed by all added ones in the order in which they were found. Added
files have new keys, no two of them the same one, and whatever a visited file imports is found in
the end.
-/

namespace RegistryBlock

theorem SourceFile.map_key_filterMap_find? {files : List SourceFile} {keys : List String}
    (h : ∀ key ∈ keys, key ∈ files.map SourceFile.key) :
    (keys.filterMap (SourceFile.find? files)).map SourceFile.key = keys := by
  induction keys with
  | nil => rfl
  | cons key keys ih =>
    have hkey := SourceFile.find?_isSome_iff.2 (h key List.mem_cons_self)
    obtain ⟨file, hfile⟩ := Option.isSome_iff_exists.1 hkey
    rw [List.filterMap_cons_some hfile, List.map_cons, SourceFile.key_of_find?_eq_some hfile,
      ih fun other hother => h other (List.mem_cons_of_mem _ hother)]

namespace ImportMap

variable (project : ImportMap)

def newFiles (found : List String) (file : SourceFile) : List SourceFile :=
  (project.newKeys found file).filterMap (SourceFile.find? project.files)

theorem mem_keys_of_mem_newKeys {found : List String} {file : SourceFile} {key : String}
    (h : key ∈ project.newKeys found file) : key ∈ project.keys :=
  project.mem_keys_of_mem_imports (project.mem_newKeys.1 h).1

theorem map_key_newFiles (found : List String) (file : SourceFile) :
    (project.newFiles found file).map SourceFile.key = project.newKeys found file :=
  SourceFile.map_key_filterMap_find? fun _ h => project.mem_keys_of_mem_newKeys h

@[simp] theorem visits_nil (found : List String) : project.visits found [] = [] := by
  rw [visits]

theorem visits_cons (found : List String) (file : SourceFile) (rest : List SourceFile) :
    project.visits found (file :: rest) =
      { file, findings := project.inspect found file } ::
        project.visits (found ++ project.newKeys found file)
          (rest ++ project.newFiles found file) := by
  rw [visits]
  rfl

/-- A visit turns the first pending file into the files that it adds behind the others. -/
theorem visits_induction {motive : List String → List SourceFile → Prop}
    (nil : ∀ found, motive found [])
    (cons : ∀ found file rest,
      motive (found ++ project.newKeys found file) (rest ++ project.newFiles found file) →
        motive found (file :: rest))
    (found : List String) (pending : List SourceFile) : motive found pending :=
  visits.induct project motive nil cons found pending

/-- The files that a visit adds, read off its findings. -/
def added (visit : Visit) : List SourceFile :=
  (visit.findings.filterMap Finding.newKey?).filterMap (SourceFile.find? project.files)

/-- The files that the visits add, in the order in which they are found. -/
def discovered (found : List String) (pending : List SourceFile) : List SourceFile :=
  (project.visits found pending).flatMap project.added

@[simp] theorem discovered_nil (found : List String) : project.discovered found [] = [] := by
  simp [discovered]

theorem discovered_cons (found : List String) (file : SourceFile) (rest : List SourceFile) :
    project.discovered found (file :: rest) =
      project.newFiles found file ++
        project.discovered (found ++ project.newKeys found file)
          (rest ++ project.newFiles found file) := by
  rw [discovered, visits_cons, List.flatMap_cons]
  rfl

/-- A visit records what becomes of the specifiers of its file, given some of the found keys. -/
theorem findings_of_mem_visits {found : List String} {pending : List SourceFile} {visit : Visit}
    (h : visit ∈ project.visits found pending) :
    ∃ earlier, visit.findings = project.inspect earlier visit.file := by
  induction found, pending using project.visits_induction with
  | nil found => simp at h
  | cons found file rest ih =>
    rw [visits_cons, List.mem_cons] at h
    rcases h with rfl | h
    · exact ⟨found, rfl⟩
    · exact ih h

/-- The files of a project hold every key that a visit finds. -/
theorem mem_keys_of_new_mem_findings {found : List String} {pending : List SourceFile}
    {visit : Visit} (h : visit ∈ project.visits found pending) {key : String}
    (hkey : .new key ∈ visit.findings) : key ∈ project.keys := by
  obtain ⟨earlier, hfindings⟩ := project.findings_of_mem_visits h
  rw [hfindings] at hkey
  exact project.mem_keys_of_mem_newKeys (List.mem_filterMap.2 ⟨_, hkey, rfl⟩)

/-- Files are visited in the order in which they were found. -/
theorem map_file_visits (found : List String) (pending : List SourceFile) :
    (project.visits found pending).map Visit.file =
      pending ++ project.discovered found pending := by
  induction found, pending using project.visits_induction with
  | nil found => simp
  | cons found file rest ih =>
    rw [visits_cons, List.map_cons, ih, discovered_cons]
    simp

/-- What holds of the pending files, and passes from a file to the files that it is the first to
import, holds of every added file. -/
theorem forall_mem_discovered {P : SourceFile → Prop} {found : List String}
    {pending : List SourceFile} (hpending : ∀ file ∈ pending, P file)
    (hstep : ∀ file, P file → ∀ key ∈ project.imports file, key ∉ found → ∀ next,
      SourceFile.find? project.files key = some next → P next) :
    ∀ file ∈ project.discovered found pending, P file := by
  induction found, pending using project.visits_induction with
  | nil found => simp
  | cons found file rest ih =>
    have hnew : ∀ next ∈ project.newFiles found file, P next := by
      intro next hnext
      obtain ⟨key, hkey, hfind⟩ := List.mem_filterMap.1 hnext
      obtain ⟨himport, hfound⟩ := project.mem_newKeys.1 hkey
      exact hstep file (hpending file List.mem_cons_self) key himport hfound next hfind
    intro next hnext
    rw [discovered_cons, List.mem_append] at hnext
    rcases hnext with hnext | hnext
    · exact hnew next hnext
    · refine ih (fun other hother => ?_) (fun file hfile key hkey hfound => ?_) next hnext
      · rcases List.mem_append.1 hother with hother | hother
        · exact hpending other (List.mem_cons_of_mem _ hother)
        · exact hnew other hother
      · exact hstep file hfile key hkey fun h => hfound (List.mem_append_left _ h)

/-- Every added file is the one that its key stands for in the project. -/
theorem find?_key_of_mem_discovered {found : List String} {pending : List SourceFile}
    {file : SourceFile} (h : file ∈ project.discovered found pending) :
    SourceFile.find? project.files file.key = some file := by
  obtain ⟨visit, -, hfile⟩ := List.mem_flatMap.1 h
  obtain ⟨key, -, hfind⟩ := List.mem_filterMap.1 hfile
  rw [SourceFile.key_of_find?_eq_some hfind, hfind]

/-- Keys are found once. -/
theorem nodup_append_discovered {found : List String} (pending : List SourceFile)
    (hfound : found.Nodup) :
    (found ++ (project.discovered found pending).map SourceFile.key).Nodup := by
  induction found, pending using project.visits_induction with
  | nil found => simpa using hfound
  | cons found file rest ih =>
    rw [discovered_cons, List.map_append, map_key_newFiles, ← List.append_assoc]
    refine ih (List.nodup_append.2 ⟨hfound, project.nodup_newKeys found file, ?_⟩)
    rintro key hkey _ hnew rfl
    exact (project.mem_newKeys.1 hnew).2 hkey

/-- Whatever a visited file imports is found in the end. -/
theorem mem_found_of_mem_imports {found : List String} {pending : List SourceFile}
    {file : SourceFile} (hfile : file ∈ pending ++ project.discovered found pending)
    {key : String} (hkey : key ∈ project.imports file) :
    key ∈ found ++ (project.discovered found pending).map SourceFile.key := by
  induction found, pending using project.visits_induction with
  | nil found => simp at hfile
  | cons found first rest ih =>
    rw [discovered_cons, List.map_append, map_key_newFiles, ← List.append_assoc]
    rw [discovered_cons, List.cons_append, List.mem_cons, ← List.append_assoc] at hfile
    rcases hfile with rfl | hfile
    · by_cases h : key ∈ found
      · exact List.mem_append_left _ (List.mem_append_left _ h)
      · exact List.mem_append_left _
          (List.mem_append_right _ (project.mem_newKeys.2 ⟨hkey, h⟩))
    · exact ih hfile

end ImportMap

end RegistryBlock
