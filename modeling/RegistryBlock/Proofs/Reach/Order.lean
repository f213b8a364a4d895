import Mathlib.Data.Prod.Lex
import Mathlib.Order.Nat
import RegistryBlock.Proofs.Reach.Least

/-!
# The order in which files are reached

Files are visited in the order in which they are found, so a file is found by the first of the
reached files that imports it, through the first of its specifiers that leads there. Behind the
seeds the reached files stand in the order of these two places, and the number of imports that it
takes to come to a file never falls along them.
-/

namespace RegistryBlock.ImportMap

variable (project : ImportMap)

/-! ### Places -/

def importerAt (row : List SourceFile) (key : String) : Nat :=
  row.findIdx fun file => key ∈ project.imports file

def specifierAt (file : SourceFile) (key : String) : Nat :=
  (Specifier.locals file.content).findIdx fun specifier => project.target? file specifier = some key

/-- The place of the first importer of a key with the place of its specifier, as they are compared:
specifiers count among those of one importer. -/
def foundAt (row : List SourceFile) (key : String) : Nat ×ₗ Nat :=
  toLex (project.importerAt row key,
    (row[project.importerAt row key]?.map (project.specifierAt · key)).getD 0)

section Places

variable {project} {row : List SourceFile} {file : SourceFile} {key : String}

theorem importerAt_le {i : Nat} (hfile : row[i]? = some file) (hkey : key ∈ project.imports file) :
    project.importerAt row key ≤ i := by
  obtain ⟨hi, rfl⟩ := List.getElem?_eq_some_iff.1 hfile
  by_contra hlt
  have hnot := List.not_of_lt_findIdx (Nat.lt_of_not_le hlt)
  exact of_decide_eq_false hnot hkey

theorem exists_importer (hfile : file ∈ row) (hkey : key ∈ project.imports file) :
    ∃ importer, row[project.importerAt row key]? = some importer ∧
      key ∈ project.imports importer := by
  have hlt : project.importerAt row key < row.length :=
    List.findIdx_lt_length_of_exists ⟨file, hfile, decide_eq_true hkey⟩
  exact ⟨row[project.importerAt row key], List.getElem?_eq_getElem hlt,
    of_decide_eq_true (List.findIdx_getElem (w := hlt))⟩

/-- Files that do not import a key are passed over. -/
theorem importerAt_append {done : List SourceFile}
    (h : ∀ file ∈ done, key ∉ project.imports file) (rest : List SourceFile) :
    project.importerAt (done ++ rest) key = done.length + project.importerAt rest key := by
  have hdone : (done.findIdx fun file => key ∈ project.imports file) = done.length :=
    List.findIdx_eq_length.2 fun file hfile => decide_eq_false (h file hfile)
  rw [importerAt, List.findIdx_append, hdone, if_neg (Nat.lt_irrefl _), Nat.add_comm]
  rfl

theorem foundAt_append_cons {done : List SourceFile}
    (h : ∀ file ∈ done, key ∉ project.imports file) (hkey : key ∈ project.imports file)
    (rest : List SourceFile) :
    project.foundAt (done ++ file :: rest) key =
      toLex (done.length, project.specifierAt file key) := by
  have hplace : project.importerAt (done ++ file :: rest) key = done.length := by
    rw [importerAt_append h, importerAt, List.findIdx_cons, decide_eq_true hkey, cond_true,
      Nat.add_zero]
  rw [foundAt, hplace, List.getElem?_append_right (Nat.le_refl _), Nat.sub_self]
  rfl

theorem importerAt_le_of_foundAt_lt {other : String}
    (h : project.foundAt row key < project.foundAt row other) :
    project.importerAt row key ≤ project.importerAt row other := by
  rcases Prod.Lex.toLex_lt_toLex.1 h with h | ⟨h, -⟩
  · exact Nat.le_of_lt h
  · exact Nat.le_of_eq h

end Places

/-! ### Finding -/

theorem not_mem_found_of_mem_discovered {found : List String} {pending : List SourceFile}
    {file : SourceFile} (h : file ∈ project.discovered found pending) : file.key ∉ found := by
  induction found, pending using project.visits_induction with
  | nil found => simp at h
  | cons found first rest ih =>
    rw [discovered_cons, List.mem_append] at h
    rcases h with h | h
    · have hkey := List.mem_map_of_mem (f := SourceFile.key) h
      rw [map_key_newFiles] at hkey
      exact (project.mem_newKeys.1 hkey).2
    · exact fun hfound => ih h (List.mem_append_left _ hfound)

/-- What one visit adds stands in the order of the specifiers of its file. -/
theorem pairwise_specifierAt_newFiles (found : List String) (file : SourceFile) :
    (project.newFiles found file).Pairwise fun next other =>
      project.specifierAt file next.key < project.specifierAt file other.key := by
  have hkeys := pairwise_findIdx_distinctBy (project.target? file) found
    (Specifier.locals file.content)
  rw [← imports, ← newKeys_eq, ← map_key_newFiles] at hkeys
  rw [List.pairwise_map] at hkeys
  exact hkeys

/-- The added files stand in the order of the places where they are found, counted in a row that
begins with files whose imports are found already. -/
theorem pairwise_foundAt_discovered {done : List SourceFile} {found : List String}
    (pending : List SourceFile)
    (hdone : ∀ file ∈ done, ∀ key ∈ project.imports file, key ∈ found) :
    (project.discovered found pending).Pairwise fun file other =>
      project.foundAt (done ++ (pending ++ project.discovered found pending)) file.key <
        project.foundAt (done ++ (pending ++ project.discovered found pending)) other.key := by
  induction found, pending using project.visits_induction generalizing done with
  | nil found => simp
  | cons found file rest ih =>
    let later := project.discovered (found ++ project.newKeys found file)
      (rest ++ project.newFiles found file)
    have hdone' : ∀ first ∈ done ++ [file], ∀ key ∈ project.imports first,
        key ∈ found ++ project.newKeys found file := by
      intro first hfirst key hkey
      rw [List.mem_append]
      by_cases hfound : key ∈ found
      · exact .inl hfound
      · rcases List.mem_append.1 hfirst with hfirst | hfirst
        · exact absurd (hdone first hfirst key hkey) hfound
        · rw [List.mem_singleton.1 hfirst] at hkey
          exact .inr (project.mem_newKeys.2 ⟨hkey, hfound⟩)
    have hrow : done ++ (file :: rest ++ (project.newFiles found file ++ later)) =
        done ++ [file] ++ (rest ++ project.newFiles found file ++ later) := by simp
    have hnew : ∀ next ∈ project.newFiles found file, ∀ row,
        project.foundAt (done ++ file :: row) next.key =
          toLex (done.length, project.specifierAt file next.key) := by
      intro next hnext row
      have hkey := List.mem_map_of_mem (f := SourceFile.key) hnext
      rw [map_key_newFiles, mem_newKeys] at hkey
      exact foundAt_append_cons (fun first hfirst himport =>
        hkey.2 (hdone first hfirst next.key himport)) hkey.1 row
    rw [discovered_cons, List.pairwise_append]
    refine ⟨?_, ?_, fun next hnext other hother => ?_⟩
    · refine (project.pairwise_specifierAt_newFiles found file).imp_of_mem
        fun hnext hother hlt => ?_
      rw [List.cons_append, hnew _ hnext, hnew _ hother]
      exact Prod.Lex.toLex_lt_toLex.2 (.inr ⟨rfl, hlt⟩)
    · rw [hrow]
      exact ih hdone'
    · rw [List.cons_append, hnew next hnext, ← List.cons_append, hrow, foundAt,
        importerAt_append fun first hfirst himport =>
          project.not_mem_found_of_mem_discovered hother (hdone' first hfirst _ himport)]
      refine Prod.Lex.toLex_lt_toLex.2 (.inl ?_)
      rw [List.length_append, List.length_singleton]
      exact Nat.lt_of_lt_of_le (Nat.lt_succ_self _) (Nat.le_add_right _ _)

/-- Every added file is imported by one that is visited. -/
theorem exists_importer_of_mem_discovered {found : List String} {pending : List SourceFile}
    {file : SourceFile} (h : file ∈ project.discovered found pending) :
    ∃ importer ∈ pending ++ project.discovered found pending,
      file.key ∈ project.imports importer := by
  obtain ⟨visit, hvisit, hfile⟩ := List.mem_flatMap.1 h
  obtain ⟨key, hkey, hfind⟩ := List.mem_filterMap.1 hfile
  obtain ⟨earlier, hfindings⟩ := project.findings_of_mem_visits hvisit
  obtain rfl := SourceFile.key_of_find?_eq_some hfind
  rw [hfindings] at hkey
  refine ⟨visit.file, ?_, (project.mem_newKeys.1 hkey).1⟩
  rw [← map_file_visits]
  exact List.mem_map_of_mem hvisit

/-! ### Distances -/

variable (seeds : List SourceFile)

/-- Whether it takes at most some number of imports to come from the seeds to a key. -/
def IsReachedIn : Nat → String → Prop
  | 0, key => ∃ seed ∈ seeds, seed.key = key
  | n + 1, key => IsReachedIn n key ∨ ∃ other, IsReachedIn n other ∧ project.Imports seeds other key

/-- Whether a number is the least number of imports that leads from the seeds to a key. -/
def IsDistance (key : String) (n : Nat) : Prop := IsLeast {n | project.IsReachedIn seeds n key} n

variable {project seeds}

theorem isReachedIn_of_mem {seed : SourceFile} (h : seed ∈ seeds) (n : Nat) :
    project.IsReachedIn seeds n seed.key := by
  induction n with
  | zero => exact ⟨seed, h, rfl⟩
  | succ n ih => exact .inl ih

theorem not_isReachedIn_zero {file : SourceFile}
    (h : file ∈ project.discovered ((distinctSeeds seeds).map SourceFile.key)
      (distinctSeeds seeds)) : ¬project.IsReachedIn seeds 0 file.key := by
  rintro ⟨seed, hseed, hkey⟩
  refine project.not_mem_found_of_mem_discovered h ((mem_key_distinctSeeds seeds).2 ?_)
  exact hkey ▸ List.mem_map_of_mem hseed

theorem exists_isDistance {file : SourceFile} (h : file ∈ project.reached seeds) :
    ∃ n, project.IsDistance seeds file.key n := by
  classical
  have hclosed : project.IsClosed seeds {key | ∃ n, project.IsReachedIn seeds n key} := by
    refine ⟨fun seed hseed => ⟨0, isReachedIn_of_mem hseed 0⟩, ?_⟩
    rintro key ⟨n, hkey⟩ other hother
    exact ⟨n + 1, .inr ⟨key, hkey, hother⟩⟩
  have hreached := project.key_mem_of_isClosed seeds hclosed h
  exact ⟨Nat.find hreached, Nat.isLeast_find hreached⟩

theorem exists_mem_reached_of_isReachedIn {n : Nat} {key : String}
    (h : project.IsReachedIn seeds n key) : ∃ file ∈ project.reached seeds, file.key = key := by
  have hclosed := project.isClosed_reached seeds
  have hmem : key ∈ (project.reached seeds).map SourceFile.key := by
    induction n generalizing key with
    | zero =>
      obtain ⟨seed, hseed, rfl⟩ := h
      exact hclosed.seed_mem seed hseed
    | succ n ih =>
      rcases h with h | ⟨other, hother, himport⟩
      · exact ih h
      · exact hclosed.import_mem other (ih hother) key himport
  exact List.mem_map.1 hmem

/-! ### The order of the result -/

variable (project seeds)

/-- Behind the seeds the reached files stand in the order in which they are found. -/
theorem pairwise_foundAt_reached :
    (project.discovered ((distinctSeeds seeds).map SourceFile.key) (distinctSeeds seeds)).Pairwise
      fun file other => project.foundAt (project.reached seeds) file.key <
        project.foundAt (project.reached seeds) other.key := by
  have h := @pairwise_foundAt_discovered project [] ((distinctSeeds seeds).map SourceFile.key)
    (distinctSeeds seeds) (by simp)
  rwa [List.nil_append, ← reached_eq] at h

/-- A relation in which the seeds stand to all files holds along the reached files when it holds
along those behind the seeds. -/
theorem pairwise_reached {R : SourceFile → SourceFile → Prop}
    (hseed : ∀ seed ∈ seeds, ∀ other, R seed other)
    (hlater : (project.discovered ((distinctSeeds seeds).map SourceFile.key)
      (distinctSeeds seeds)).Pairwise R) : (project.reached seeds).Pairwise R := by
  have hfirst : ∀ seed ∈ distinctSeeds seeds, ∀ other, R seed other := fun seed h =>
    hseed seed ((distinctBy_sublist _ _ _).mem h)
  rw [reached_eq, List.pairwise_append]
  exact ⟨List.pairwise_of_forall_mem_list fun seed h other _ => hfirst seed h other, hlater,
    fun seed h other _ => hfirst seed h other⟩

/-- What comes within some imports of the seeds also brings its predecessors that near. -/
theorem pairwise_isReachedIn (n : Nat) : (project.reached seeds).Pairwise fun file other =>
    project.IsReachedIn seeds n other.key → project.IsReachedIn seeds n file.key := by
  induction n with
  | zero =>
    refine project.pairwise_reached seeds (fun seed hseed _ _ => isReachedIn_of_mem hseed 0) ?_
    exact List.pairwise_of_forall_mem_list fun _ _ other hother h =>
      absurd h (not_isReachedIn_zero hother)
  | succ n ih =>
    refine project.pairwise_reached seeds
      (fun seed hseed _ _ => isReachedIn_of_mem hseed (n + 1)) ?_
    have hlater := ih
    rw [reached_eq, List.pairwise_append] at hlater
    refine ((project.pairwise_foundAt_reached seeds).and hlater.2.1).imp_of_mem ?_
    rintro file other hfile hother ⟨hlt, hnear⟩ (hreach | ⟨key, hkey, himport⟩)
    · exact .inl (hnear hreach)
    -- The first importer of the later file is at most as far as `key`, and that of the earlier
    -- file does not stand behind it.
    · obtain ⟨reader, hreader, rfl⟩ := exists_mem_reached_of_isReachedIn hkey
      obtain ⟨i, hi⟩ := List.getElem?_of_mem hreader
      have hle := importerAt_le hi ((project.mem_imports_iff seeds
        (project.fileOf?_key_of_mem_reached seeds hreader)).2 himport)
      obtain ⟨parent, hparent, hfileImport⟩ := project.exists_importer_of_mem_discovered hfile
      rw [← reached_eq] at hparent
      obtain ⟨first, hfirst, hfirstImport⟩ := exists_importer hparent hfileImport
      have hbefore := Nat.le_trans (importerAt_le_of_foundAt_lt hlt) hle
      have hmem := List.mem_of_getElem? hfirst
      refine .inr ⟨first.key, ?_, (project.mem_imports_iff seeds
        (project.fileOf?_key_of_mem_reached seeds hmem)).1 hfirstImport⟩
      rcases Nat.lt_or_eq_of_le hbefore with hbefore | hsame
      · obtain ⟨hj, rfl⟩ := List.getElem?_eq_some_iff.1 hfirst
        obtain ⟨hlen, rfl⟩ := List.getElem?_eq_some_iff.1 hi
        exact List.pairwise_iff_getElem.1 ih _ i hj hlen hbefore hkey
      · rw [hsame, hi] at hfirst
        exact Option.some.inj hfirst ▸ hkey

/-- Behind the different seeds, the reached files stand strictly in the order of the place of their
first importer among the reached files and, for one importer, of the first of its specifiers that
leads to them. Each has such an importer. Every reached file has a distance from the seeds, and the
distances never fall along the reached files. -/
theorem reached_breadth_first (settings : AliasSettings) (files seeds : List SourceFile) :
    let project : ImportMap := ⟨files, .ofSettings settings⟩
    let result := project.reached seeds
    (∃ later, result = distinctSeeds seeds ++ later ∧
      (∀ file ∈ later, ∃ importer,
        result[project.importerAt result file.key]? = some importer ∧
          file.key ∈ project.imports importer) ∧
      later.Pairwise fun file other =>
        project.foundAt result file.key < project.foundAt result other.key) ∧
      (∀ file ∈ result, ∃ n, project.IsDistance seeds file.key n) ∧
      result.Pairwise fun file other => ∀ n m, project.IsDistance seeds file.key n →
        project.IsDistance seeds other.key m → n ≤ m := by
  intro project result
  refine ⟨⟨_, project.reached_eq seeds, fun file hfile => ?_,
    project.pairwise_foundAt_reached seeds⟩, fun file => exists_isDistance, ?_⟩
  · obtain ⟨importer, himporter, hkey⟩ := project.exists_importer_of_mem_discovered hfile
    rw [← reached_eq] at himporter
    exact exists_importer himporter hkey
  · refine List.pairwise_iff_getElem.2 fun i j hi hj hij n m hn hm => hn.2 ?_
    exact List.pairwise_iff_getElem.1 (project.pairwise_isReachedIn seeds m) i j hi hj hij hm.1

end RegistryBlock.ImportMap
