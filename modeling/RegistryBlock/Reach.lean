import RegistryBlock.Distinct
import RegistryBlock.Journal.Record
import RegistryBlock.Source
import RegistryBlock.Specifier.Kind
import RegistryBlock.Specifier.Statement
import RegistryBlock.Specifier.Target
import RegistryBlock.Text.Quoted

/-!
# Files reached through imports

From some files of a project, the seeds, one reaches the files they import, the files that those
import, and so on. Files are visited in the order in which they were found: the seeds, then what
the first of them imports, and so on. Every key is visited once, so the visit ends although the
files may import each other.
-/

namespace RegistryBlock

/-- The different local specifiers of a text in the order of their first occurrence. -/
def Specifier.locals (text : String) : List String :=
  distinctBy id [] ((all text).filter isLocal)

/-- The files of a project with the aliases that their imports use. -/
structure ImportMap where
  files : List SourceFile
  table : AliasTable

inductive Finding where
  /-- It leads to no file of the project. -/
  | unresolved (specifier : String)
  /-- It leads to a file that was found before. -/
  | known (key : String)
  /-- It leads to a file that is found here. -/
  | new (key : String)
deriving DecidableEq, Repr

def Finding.newKey? : Finding → Option String
  | new key => some key
  | _ => none

/-- What becomes of a row of specifiers when the given keys are found already. -/
def findings (target? : String → Option String) : List String → List String → List Finding
  | _, [] => []
  | found, specifier :: rest =>
    match target? specifier with
    | none => .unresolved specifier :: findings target? found rest
    | some key =>
      if key ∈ found then .known key :: findings target? found rest
      else .new key :: findings target? (key :: found) rest

theorem filterMap_newKey?_findings (target? : String → Option String) (found l : List String) :
    (findings target? found l).filterMap Finding.newKey? =
      distinctBy id found (l.filterMap target?) := by
  induction l generalizing found with
  | nil => rfl
  | cons specifier rest ih =>
    simp only [findings]
    cases h : target? specifier with
    | none => rw [List.filterMap_cons_none h, ← ih, List.filterMap_cons_none rfl]
    | some key =>
      rw [List.filterMap_cons_some h]
      simp only [distinctBy, id]
      split
      · rw [List.filterMap_cons_none rfl, ih]
      · rw [List.filterMap_cons_some (show Finding.newKey? (.new key) = some key from rfl), ih]

structure Visit where
  file : SourceFile
  findings : List Finding
deriving DecidableEq, Repr

namespace ImportMap

variable (project : ImportMap)

def keys : List String := project.files.map SourceFile.key

def target? (file : SourceFile) (specifier : String) : Option String :=
  Specifier.target? project.table (fun key => (SourceFile.find? project.files key).isSome)
    file.key specifier

def imports (file : SourceFile) : List String :=
  (Specifier.locals file.content).filterMap (project.target? file)

theorem mem_keys_of_mem_imports {file : SourceFile} {key : String}
    (h : key ∈ project.imports file) : key ∈ project.keys := by
  obtain ⟨specifier, -, h⟩ := List.mem_filterMap.1 h
  exact SourceFile.find?_isSome_iff.1 (Specifier.known_of_target?_eq_some h)

def inspect (found : List String) (file : SourceFile) : List Finding :=
  RegistryBlock.findings (project.target? file) found (Specifier.locals file.content)

def newKeys (found : List String) (file : SourceFile) : List String :=
  (project.inspect found file).filterMap Finding.newKey?

theorem newKeys_eq (found : List String) (file : SourceFile) :
    project.newKeys found file = distinctBy id found (project.imports file) :=
  filterMap_newKey?_findings _ _ _

theorem nodup_newKeys (found : List String) (file : SourceFile) :
    (project.newKeys found file).Nodup := by
  rw [newKeys_eq]
  simpa using nodup_map_distinctBy id found (project.imports file)

theorem mem_newKeys {found : List String} {file : SourceFile} {key : String} :
    key ∈ project.newKeys found file ↔ key ∈ project.imports file ∧ key ∉ found := by
  rw [newKeys_eq]
  have h : key ∈ (distinctBy id found (project.imports file)).map id ↔ _ := mem_map_distinctBy
  simpa using h

def unseen (found : List String) : Nat := (project.keys.filter (· ∉ found)).length

theorem unseen_append_newKeys (found : List String) (file : SourceFile) :
    project.unseen (found ++ project.newKeys found file) +
      (project.newKeys found file).length ≤ project.unseen found := by
  have hsplit : project.keys.filter (· ∉ found ++ project.newKeys found file) =
      (project.keys.filter (· ∉ found)).filter (· ∉ project.newKeys found file) := by
    rw [List.filter_filter]
    congr 1
    funext key
    simp [List.mem_append, not_or, Bool.and_comm]
  rw [unseen, hsplit]
  refine length_filter_not_mem_add_le (project.nodup_newKeys found file) fun key h => ?_
  have h := project.mem_newKeys.1 h
  exact List.mem_filter.2 ⟨project.mem_keys_of_mem_imports h.1, by simpa using h.2⟩

/-- Visits the pending files in order, and after them the files that they lead to. `found` holds
the keys of all files visited or pending. -/
def visits (found : List String) (pending : List SourceFile) : List Visit :=
  match pending with
  | [] => []
  | file :: rest =>
    let new := project.newKeys found file
    { file, findings := project.inspect found file } ::
      visits (found ++ new) (rest ++ new.filterMap (SourceFile.find? project.files))
termination_by project.unseen found + pending.length
decreasing_by
  have h := project.unseen_append_newKeys found file
  have hlen : ((project.newKeys found file).filterMap
      (SourceFile.find? project.files)).length ≤ (project.newKeys found file).length :=
    List.length_filterMap_le ..
  simp only [List.length_append, List.length_cons]
  omega

/-- Visits the seeds and everything they lead to. Of seeds with one key only the first counts. -/
def visitFrom (seeds : List SourceFile) : List Visit :=
  let seeds := distinctBy SourceFile.key [] seeds
  project.visits (seeds.map SourceFile.key) seeds

/-- The seeds and all files reached from them. -/
def reached (seeds : List SourceFile) : List SourceFile := (project.visitFrom seeds).map Visit.file

end ImportMap

def Visit.records (visit : Visit) : List Journal.Record :=
  visit.findings.filterMap fun
    | .unresolved specifier => some ⟨some "closure", .debug,
        "Dropping unresolved import " ++ Text.quoted specifier ++ " in " ++ visit.file.key⟩
    | .new key => some ⟨some "closure", .debug,
        "Including " ++ key ++ " (imported by " ++ visit.file.key ++ ")"⟩
    | .known _ => none

end RegistryBlock
