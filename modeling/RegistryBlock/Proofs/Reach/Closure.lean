import Mathlib.Data.List.Nodup
import Mathlib.Data.Set.Basic
import Mathlib.Logic.Relation
import RegistryBlock.Proofs.Reach.Least

/-!
# Reaching as a closure

A key leads to another one when its file imports it. When the seeds are files of the project, the
reached keys are those that the keys of the seeds lead to, in any number of steps. Steps do not see
the order of the seeds or of the files, so neither do the reached keys, and what several seeds reach
is what each of them reaches. Nothing more is reached from files that are reached already.
-/

namespace RegistryBlock

namespace SourceFile

variable {files others : List SourceFile}

theorem find?_eq_some_iff (h : (files.map key).Nodup) {k : String} {file : SourceFile} :
    find? files k = some file ↔ file ∈ files ∧ file.key = k := by
  constructor
  · exact fun hfind => ⟨mem_of_find?_eq_some hfind, key_of_find?_eq_some hfind⟩
  · rintro ⟨hfile, rfl⟩
    have hsome : (find? files file.key).isSome = true :=
      find?_isSome_iff.2 (List.mem_map_of_mem hfile)
    obtain ⟨other, hother⟩ := Option.isSome_iff_exists.1 hsome
    have hsame : other = file := List.inj_on_of_nodup_map h (mem_of_find?_eq_some hother) hfile
      (key_of_find?_eq_some hother)
    rw [hother, hsame]

/-- Files with different keys are found in any order. -/
theorem find?_eq_of_perm (h : (files.map key).Nodup) (hperm : files.Perm others) (k : String) :
    find? files k = find? others k := by
  have hothers : (others.map key).Nodup := (hperm.map key).nodup_iff.1 h
  ext file
  rw [find?_eq_some_iff h, find?_eq_some_iff hothers, hperm.mem_iff]

end SourceFile

namespace ImportMap

variable (project : ImportMap) {seeds : List SourceFile}

def reachedKeys (seeds : List SourceFile) : Set String :=
  {key | key ∈ (project.reached seeds).map SourceFile.key}

/-! ### Nothing more is reached -/

theorem discovered_eq_nil {found : List String} {pending : List SourceFile}
    (h : ∀ file ∈ pending, ∀ key ∈ project.imports file, key ∈ found) :
    project.discovered found pending = [] := by
  induction pending with
  | nil => simp
  | cons file rest ih =>
    have hkeys : project.newKeys found file = [] := by
      rw [List.eq_nil_iff_forall_not_mem]
      intro key hkey
      obtain ⟨himport, hnew⟩ := project.mem_newKeys.1 hkey
      exact hnew (h file List.mem_cons_self key himport)
    have hfiles : project.newFiles found file = [] := by rw [newFiles, hkeys, List.filterMap_nil]
    rw [discovered_cons, hkeys, hfiles, List.append_nil, List.append_nil, List.nil_append]
    exact ih fun next hnext => h next (List.mem_cons_of_mem _ hnext)

theorem mem_key_reached_of_mem_imports {file : SourceFile} (hfile : file ∈ project.reached seeds)
    {key : String} (hkey : key ∈ project.imports file) :
    key ∈ (project.reached seeds).map SourceFile.key := by
  rw [reached_eq] at hfile
  rw [reached_eq, List.map_append]
  exact project.mem_found_of_mem_imports hfile hkey

theorem reached_reached (seeds : List SourceFile) :
    project.reached (project.reached seeds) = project.reached seeds := by
  have hdistinct : distinctSeeds (project.reached seeds) = project.reached seeds :=
    distinctBy_eq_self (project.nodup_key_reached seeds) (by simp)
  rw [project.reached_eq (project.reached seeds), hdistinct, discovered_eq_nil, List.append_nil]
  exact fun file hfile key hkey => project.mem_key_reached_of_mem_imports hfile hkey

/-! ### Steps -/

/-- Whether the file of one key imports another key. -/
def Leads (key other : String) : Prop :=
  ∃ file, SourceFile.find? project.files key = some file ∧ other ∈ project.imports file

theorem fileOf?_eq_find? (h : ∀ seed ∈ seeds, SourceFile.find? project.files seed.key = some seed)
    (key : String) : project.fileOf? seeds key = SourceFile.find? project.files key := by
  rw [fileOf?]
  cases hseed : SourceFile.find? seeds key with
  | none => rw [Option.none_or]
  | some seed =>
    obtain rfl := SourceFile.key_of_find?_eq_some hseed
    rw [Option.some_or, h seed (SourceFile.mem_of_find?_eq_some hseed)]

theorem imports_iff_leads
    (h : ∀ seed ∈ seeds, SourceFile.find? project.files seed.key = some seed)
    {key other : String} : project.Imports seeds key other ↔ project.Leads key other := by
  simp only [Imports, Leads, imports, List.mem_filterMap, target?_eq_target?_contains,
    project.fileOf?_eq_find? h]
  constructor
  · rintro ⟨file, hfile, himport⟩
    exact ⟨file, hfile, by rwa [SourceFile.key_of_find?_eq_some hfile]⟩
  · rintro ⟨file, hfile, himport⟩
    exact ⟨file, hfile, by rwa [SourceFile.key_of_find?_eq_some hfile] at himport⟩

/-- The reached keys are those that come after any number of steps from the seeds. -/
theorem mem_reachedKeys_iff
    (h : ∀ seed ∈ seeds, SourceFile.find? project.files seed.key = some seed) {key : String} :
    key ∈ project.reachedKeys seeds ↔
      ∃ seed ∈ seeds, Relation.ReflTransGen project.Leads seed.key key := by
  constructor
  · intro hkey
    obtain ⟨file, hfile, rfl⟩ := List.mem_map.1 hkey
    have hclosed : project.IsClosed seeds
        {key | ∃ seed ∈ seeds, Relation.ReflTransGen project.Leads seed.key key} := by
      refine ⟨fun seed hseed => ⟨seed, hseed, .refl⟩, ?_⟩
      rintro key ⟨seed, hseed, hsteps⟩ other hother
      exact ⟨seed, hseed, hsteps.tail ((project.imports_iff_leads h).1 hother)⟩
    exact project.key_mem_of_isClosed seeds hclosed hfile
  · rintro ⟨seed, hseed, hsteps⟩
    have hclosed := project.isClosed_reached seeds
    induction hsteps with
    | refl => exact hclosed.seed_mem seed hseed
    | tail _ hstep ih => exact hclosed.import_mem _ ih _ ((project.imports_iff_leads h).2 hstep)

theorem leads_eq_of_perm {files others : List SourceFile} (table : AliasTable)
    (h : (files.map SourceFile.key).Nodup) (hperm : files.Perm others) :
    (ImportMap.mk others table).Leads = (ImportMap.mk files table).Leads := by
  have htarget : (ImportMap.mk others table).target? = (ImportMap.mk files table).target? := by
    funext file specifier
    simp only [target?, SourceFile.find?_eq_of_perm h hperm]
  funext key other
  simp only [Leads, imports, htarget, SourceFile.find?_eq_of_perm h hperm]

/-- Reaching is a closure: repeating it changes nothing. If the files have different keys and the
seeds are among them, the reached keys of several seeds are those of each of them, more seeds reach
more, and neither the order and number of the seeds nor the order of the files counts. -/
theorem reached_isClosure (settings : AliasSettings) (files : List SourceFile) :
    let project : ImportMap := ⟨files, .ofSettings settings⟩
    (∀ seeds, project.reached (project.reached seeds) = project.reached seeds) ∧
      ((files.map SourceFile.key).Nodup → ∀ seeds ⊆ files,
        (∀ more ⊆ files,
          project.reachedKeys (seeds ++ more) =
            project.reachedKeys seeds ∪ project.reachedKeys more) ∧
        (∀ more ⊆ files, seeds ⊆ more → project.reachedKeys seeds ⊆ project.reachedKeys more) ∧
        ∀ seeds' files', (∀ file, file ∈ seeds' ↔ file ∈ seeds) → files.Perm files' →
          (ImportMap.mk files' (.ofSettings settings)).reachedKeys seeds' =
            project.reachedKeys seeds) := by
  intro project
  refine ⟨project.reached_reached, fun hnodup seeds hseeds => ?_⟩
  have hfind : ∀ seeds ⊆ files, ∀ seed ∈ seeds,
      SourceFile.find? files seed.key = some seed := fun seeds hseeds seed hseed =>
    (SourceFile.find?_eq_some_iff hnodup).2 ⟨hseeds hseed, rfl⟩
  have hkeys : ∀ seeds ⊆ files, ∀ key, key ∈ project.reachedKeys seeds ↔
      ∃ seed ∈ seeds, Relation.ReflTransGen project.Leads seed.key key := fun seeds hseeds key =>
    project.mem_reachedKeys_iff (hfind seeds hseeds)
  refine ⟨fun more hmore => ?_, fun more hmore hsub key hkey => ?_,
    fun seeds' files' hsame hperm => ?_⟩
  · ext key
    rw [Set.mem_union, hkeys _ (List.append_subset.2 ⟨hseeds, hmore⟩), hkeys _ hseeds,
      hkeys _ hmore]
    simp only [List.mem_append, or_and_right, exists_or]
  · obtain ⟨seed, hseed, hsteps⟩ := (hkeys _ hseeds key).1 hkey
    exact (hkeys _ hmore key).2 ⟨seed, hsub hseed, hsteps⟩
  · have hfind' : ∀ seed ∈ seeds', SourceFile.find? files' seed.key = some seed :=
      fun seed hseed => by
        rw [← SourceFile.find?_eq_of_perm hnodup hperm]
        exact hfind seeds hseeds seed ((hsame seed).1 hseed)
    ext key
    rw [hkeys _ hseeds, mem_reachedKeys_iff _ hfind', leads_eq_of_perm _ hnodup hperm]
    exact exists_congr fun seed => and_congr_left' (hsame seed)

/-- Two files import each other, and a third one stands alone. -/
theorem reached_isClosure_cycle :
    let first : SourceFile := ⟨"a.ts", "import './b'"⟩
    let second : SourceFile := ⟨"b.ts", "import './a'"⟩
    let third : SourceFile := ⟨"c.ts", ""⟩
    let project : ImportMap := ⟨[first, second, third], .ofSettings {}⟩
    let turned : ImportMap := ⟨[third, second, first], .ofSettings {}⟩
    project.reached [third, first] = [third, first, second] ∧
      project.reachedKeys ([first] ++ [third]) =
        project.reachedKeys [first] ∪ project.reachedKeys [third] ∧
      project.reachedKeys [first] ⊆ project.reachedKeys [third, first] ∧
      turned.reachedKeys [first, first] = project.reachedKeys [first] := by
  intro first second third project turned
  have hseeds : [first] ⊆ project.files := by simp [project]
  obtain ⟨hunion, hmono, hsame⟩ :=
    (reached_isClosure {} project.files).2 (by decide +kernel) [first] hseeds
  refine ⟨by decide +kernel, hunion [third] (by simp [project]), ?_, ?_⟩
  · exact hmono [third, first] (by simp [project]) (by simp)
  · exact hsame [first, first] turned.files (by simp)
      ((List.reverse_perm project.files).symm)

end ImportMap

end RegistryBlock
