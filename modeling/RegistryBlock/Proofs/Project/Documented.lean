import RegistryBlock.Proofs.Project.Build
import RegistryBlock.Proofs.Tree.Unreadable

/-!
# Failures of the stages of a build

Most failures are described: the settings or the manifest are malformed, git gives an error, a path
is not what it has to be, or the file system finds something missing or no directory. Every stage of
a build that reads a file as text has one more way to fail, and the reader of the settings can find
a scalar without a value.
-/

namespace RegistryBlock

/-- Whether a failure is one of those that the program describes. From the file system it describes
two: something is missing, or is no directory where one has to be. -/
def Failure.IsDocumented : Failure → Prop
  | settings _ | manifest _ | git _ | path _ => True
  | storage fault _ => fault = .missing ∨ fault = .notDirectory
  | scalar => False

instance : DecidablePred Failure.IsDocumented
  | .settings _ | .manifest _ | .git _ | .path _ => isTrue trivial
  | .storage fault _ => inferInstanceAs (Decidable (fault = .missing ∨ fault = .notDirectory))
  | .scalar => isFalse id

theorem Tree.IsUnreadable.not_isDocumented {tree : Tree} {loc : Location} {fault : Fault}
    (h : tree.IsUnreadable loc fault) (path : String) :
    ¬ (Failure.storage fault path).IsDocumented := by
  cases h <;> rintro (h | h) <;> cases h

/-! ### Stages of a build -/

section Stages

variable {tree : Tree} {path : WrittenPath} {root : Location} {yaml : Yaml.Reader}
  {failure : Failure}

/-- Steps in a row fail in an undescribed way where the first step does, or the next one does. -/
theorem bind_eq_undocumented_iff {α β : Type} {start : Except Failure α}
    {next : α → Except Failure β} :
    start >>= next = .error failure ∧ ¬ failure.IsDocumented ↔
      start = .error failure ∧ ¬ failure.IsDocumented ∨
      ∃ a, start = .ok a ∧ next a = .error failure ∧ ¬ failure.IsDocumented := by
  rw [bind_eq_error_iff, or_and_right, exists_and_right.symm]
  simp only [and_assoc]

theorem isDocumented_of_mapError_manifest {α : Type} {result : Except Manifest.Error α}
    (h : result.mapError .manifest = .error failure) : failure.IsDocumented := by
  cases result with
  | error e =>
    obtain rfl := Except.error.inj h
    trivial
  | ok a => cases h

theorem ofStorage_eq_error_iff {α : Type} {loc : Location} {result : Except Tree.Fault α} :
    Failure.ofStorage loc result = .error failure ↔
      ∃ fault, result = .error fault ∧ failure = .storage fault loc.text := by
  cases result with
  | error fault => simp [Failure.ofStorage, eq_comm]
  | ok a => simp [Failure.ofStorage]

theorem ofStorage_eq_ok_iff {α : Type} {loc : Location} {result : Except Tree.Fault α} {a : α} :
    Failure.ofStorage loc result = .ok a ↔ result = .ok a := by
  cases result <;> simp [Failure.ofStorage]

namespace Settings

/-- Whether the reader finds a scalar without a value in the text of a settings file, as a date that
does not exist. -/
def IsValueless (yaml : Yaml.Reader) (text : String) : Prop :=
  (Text.trim text.toList).isEmpty = false ∧ yaml text = .error .scalar

theorem up_not_mem_fileFor (tree : Tree) (path : WrittenPath) :
    ".." ∉ (fileFor tree path).names := by
  unfold fileFor
  split
  · exact WrittenPath.up_not_mem_resolve List.not_mem_nil _
  · split <;> exact WrittenPath.up_not_mem_resolve List.not_mem_nil _

theorem parse_eq_undocumented_iff {text : String} :
    parse yaml root text = .error failure ∧ ¬ failure.IsDocumented ↔
      failure = .scalar ∧ IsValueless yaml text := by
  unfold parse IsValueless
  cases (Text.trim text.toList).isEmpty
  · rcases yaml text with e | v
    · cases e <;> simp [eq_comm] <;> rintro rfl <;> simp [Failure.IsDocumented]
    · cases v <;> simp [eq_comm] <;> rintro rfl <;> simp [Failure.IsDocumented]
  · simp

/-- Settings cannot be loaded in two undescribed ways: the file is unreadable, or a scalar in it
has no value. -/
theorem load_eq_undocumented_iff :
    load tree path yaml = .error failure ∧ ¬ failure.IsDocumented ↔
      (∃ fault, tree.IsUnreadable (fileFor tree path) fault ∧
        failure = .storage fault (fileFor tree path).text) ∨
      ∃ text, tree.readText (fileFor tree path) = .ok text ∧ failure = .scalar ∧
        IsValueless yaml text := by
  have hup := up_not_mem_fileFor tree path
  unfold load
  dsimp only
  by_cases hholds : tree.holds (fileFor tree path) = true
  · rw [if_pos hholds]
    simp only [bind_eq_undocumented_iff, ofStorage_eq_error_iff, ofStorage_eq_ok_iff,
      Tree.readText_eq_error_iff hup hholds, parse_eq_undocumented_iff]
    refine or_congr_left ⟨And.left, ?_⟩
    rintro ⟨fault, hread, rfl⟩
    exact ⟨⟨fault, hread, rfl⟩, hread.not_isDocumented _⟩
  · rw [if_neg hholds]
    constructor
    · rintro ⟨⟨⟩, -⟩
    · rintro (⟨fault, hread, -⟩ | ⟨text, htext, -⟩)
      · exact absurd hread.holds hholds
      · obtain ⟨fault, herror⟩ := Tree.exists_readText_eq_error (eq_false_of_ne_true hholds)
        cases htext.symm.trans herror

end Settings

namespace IgnoreRule

theorem fromIgnoreFile_eq_error_iff (hup : ".." ∉ root.names) :
    fromIgnoreFile tree root = .error failure ↔
      ∃ fault, tree.IsUnreadable (root.child ".gitignore") fault ∧
        failure = .storage fault (root.child ".gitignore").text := by
  have hfile := up_not_mem_child hup (by decide : ".gitignore" ≠ "..")
  unfold fromIgnoreFile
  dsimp only
  split
  · next hholds =>
    rw [map_eq_error_iff, ofStorage_eq_error_iff]
    simp only [Tree.readText_eq_error_iff hfile hholds]
  · next hholds =>
    constructor
    · rintro ⟨⟩
    · rintro ⟨fault, hread, -⟩
      exact absurd hread.holds hholds

/-- Settings that can be loaded give rules, so it is up to the ignore file alone. -/
theorem result_load_eq_error_iff {settings : Settings}
    (hsettings : Settings.load tree (.ofLocation root) yaml = .ok settings) :
    (load tree root yaml).finish.1 = .error failure ↔
      fromIgnoreFile tree root = .error failure := by
  have hrules : ∀ trace, (fromSettings tree root yaml).runFrom trace =
      (.ok (ofExcludes settings.excludes), trace) := by
    intro trace
    rw [fromSettings, hsettings]
    rfl
  rw [RunM.finish_eq, load, RunM.runFrom_bind, RunM.runFrom_ofExcept]
  cases fromIgnoreFile tree root with
  | error other => exact Iff.rfl
  | ok own =>
    simp only [RunM.runFrom_bind, hrules]
    constructor <;> rintro ⟨⟩

end IgnoreRule

/-- A project with good settings cannot be read in one undescribed way: its ignore file is
unreadable. -/
theorem result_scanProject_eq_undocumented_iff (hup : ".." ∉ root.names) {settings : Settings}
    (hsettings : Settings.load tree (.ofLocation root) yaml = .ok settings) :
    (scanProject tree (.ofLocation root) yaml).finish.1 = .error failure ∧
        ¬ failure.IsDocumented ↔
      tree.isDirAt root = true ∧ ∃ fault, tree.IsUnreadable (root.child ".gitignore") fault ∧
        failure = .storage fault (root.child ".gitignore").text := by
  rw [result_scanProject, WrittenPath.resolve_ofLocation hup]
  by_cases hdir : tree.isDirAt root = true
  · rw [if_pos (Tree.holds_of_isDirAt hdir), if_pos hdir, map_eq_error_iff,
      IgnoreRule.result_load_eq_error_iff hsettings, IgnoreRule.fromIgnoreFile_eq_error_iff hup]
    constructor
    · exact fun h => ⟨hdir, h.1⟩
    · rintro ⟨-, fault, hread, rfl⟩
      exact ⟨⟨fault, hread, rfl⟩, hread.not_isDocumented _⟩
  · rw [if_neg hdir]
    constructor
    · rintro ⟨hfailure, hdoc⟩
      split at hfailure <;> obtain rfl := Except.error.inj hfailure <;> exact absurd trivial hdoc
    · exact fun h => absurd h.1 hdir

/-- An unreadable manifest has other bytes than a text: a directory does not count. -/
theorem manifestText_eq_undocumented_iff (hup : ".." ∉ root.names) :
    manifestText tree root = .error failure ∧ ¬ failure.IsDocumented ↔
      tree.IsUnreadable (root.child manifestName) .undecodable ∧
        failure = .storage .undecodable (root.child manifestName).text := by
  have hplace := up_not_mem_child hup (by decide : manifestName ≠ "..")
  unfold manifestText
  dsimp only
  split
  · next hfile =>
    rw [ofStorage_eq_error_iff]
    simp only [Tree.readText_eq_error_iff_of_isFileAt hplace hfile]
    constructor
    · rintro ⟨⟨fault, ⟨hread, rfl⟩, rfl⟩, -⟩
      exact ⟨hread, rfl⟩
    · rintro ⟨hread, rfl⟩
      exact ⟨⟨.undecodable, ⟨hread, rfl⟩, rfl⟩, hread.not_isDocumented _⟩
  · next hfile =>
    constructor
    · rintro ⟨⟨⟩, hdoc⟩
      exact absurd trivial hdoc
    · exact fun h => absurd h.1.isFileAt hfile

theorem AliasSettings.load_eq_undocumented_iff (hup : ".." ∉ root.names) (sourceRoot : Bool) :
    load tree (.ofLocation root) sourceRoot = .error failure ∧ ¬ failure.IsDocumented ↔
      ∃ file, nearestFile? tree root = some file ∧ tree.IsUnreadable file .undecodable ∧
        failure = .storage .undecodable file.text := by
  unfold load
  rw [WrittenPath.resolve_ofLocation hup]
  cases hnearest : nearestFile? tree root with
  | none =>
    constructor
    · rintro ⟨⟨⟩, hdoc⟩
      exact absurd trivial hdoc
    · rintro ⟨file, ⟨⟩, -⟩
  | some file =>
    have hplace := up_not_mem_of_nearestFile? hup hnearest
    have hfile : tree.isFileAt file = true := List.find?_some hnearest
    simp only [Option.some.injEq, exists_eq_left', bind_eq_error_iff, ofStorage_eq_error_iff,
      Tree.readText_eq_error_iff_of_isFileAt hplace hfile]
    constructor
    · rintro ⟨⟨fault, ⟨hread, rfl⟩, rfl⟩ | ⟨text, -, hparse⟩, hdoc⟩
      · exact ⟨hread, rfl⟩
      · split at hparse
        · obtain rfl := Except.error.inj hparse
          exact absurd trivial hdoc
        · cases hparse
        · obtain rfl := Except.error.inj hparse
          exact absurd trivial hdoc
    · rintro ⟨hread, rfl⟩
      exact ⟨Or.inl ⟨.undecodable, ⟨hread, rfl⟩, rfl⟩, hread.not_isDocumented _⟩

end Stages

/-! ### Seeds -/

namespace RunM

variable {α β : Type}

/-- A run whose failures are all described, whatever comes before it. -/
structure FailsDocumented (run : RunM α) : Prop where
  isDocumented : ∀ trace failure, (run.runFrom trace).1 = .error failure → failure.IsDocumented

theorem failsDocumented_pure (a : α) : FailsDocumented (pure a) := ⟨fun _ _ h => nomatch h⟩

theorem failsDocumented_throw {failure : Failure} (h : failure.IsDocumented) :
    FailsDocumented (throw failure : RunM α) := by
  constructor
  intro trace other hother
  obtain rfl : failure = other := Except.error.inj hother
  exact h

theorem FailsDocumented.bind {run : RunM α} {next : α → RunM β} (hrun : FailsDocumented run)
    (hnext : ∀ a, FailsDocumented (next a)) : FailsDocumented (run >>= next) := by
  constructor
  intro trace failure h
  rw [runFrom_bind] at h
  rcases hfound : run.runFrom trace with ⟨other | a, later⟩
  · rw [hfound] at h
    obtain rfl : other = failure := Except.error.inj h
    exact hrun.isDocumented trace other (congrArg Prod.fst hfound)
  · rw [hfound] at h
    exact (hnext a).isDocumented later failure h

theorem failsDocumented_log (area : String) (level : Journal.Level) (message : String) :
    FailsDocumented (log area level message) := ⟨fun _ _ h => nomatch h⟩

theorem failsDocumented_call (git : Git) (c : Git.Call) : FailsDocumented (call git c) := by
  constructor
  intro trace failure h
  rw [runFrom_call] at h
  cases hreply : (git.reply trace.calls c).outcome c.args with
  | error e =>
    rw [hreply] at h
    obtain rfl := Except.error.inj h
    trivial
  | ok text =>
    rw [hreply] at h
    cases h

end RunM

namespace History

open RunM

theorem failsDocumented_ofGit {α : Type} (result : Except Git.Error α) :
    FailsDocumented (ofGit result) := by
  cases result with
  | error e => exact failsDocumented_throw trivial
  | ok a => exact failsDocumented_pure a

theorem failsDocumented_firstCommit (git : Git) (repo : Location) :
    FailsDocumented (firstCommit git repo) := by
  refine (failsDocumented_call ..).bind fun output => ?_
  split
  · exact failsDocumented_pure _
  · exact failsDocumented_throw trivial

theorem failsDocumented_alteredSince (git : Git) (repo : Location) (commit : String)
    (paths : List String) (files : List SourceFile) :
    FailsDocumented (alteredSince git repo commit paths files) := by
  induction files with
  | nil => exact failsDocumented_pure _
  | cons file files ih =>
    have haltered : FailsDocumented (isAltered git repo commit paths file) := by
      unfold isAltered
      split
      · exact (failsDocumented_call ..).bind fun text => failsDocumented_pure _
      · exact failsDocumented_pure _
    exact haltered.bind fun altered => ih.bind fun more => failsDocumented_pure _

theorem failsDocumented_alteredFiles (git : Git) (tree : Tree) (path : WrittenPath)
    (files : List SourceFile) : FailsDocumented (alteredFiles git tree path files) := by
  refine (failsDocumented_ofGit _).bind fun repo => ?_
  refine (failsDocumented_firstCommit ..).bind fun commit => ?_
  refine (failsDocumented_call ..).bind fun listing => ?_
  refine (failsDocumented_alteredSince ..).bind fun altered => ?_
  exact (failsDocumented_log ..).bind fun _ => failsDocumented_pure _

end History

/-- Seeds fail for reasons of git or of the folder, and these are described. -/
theorem failsDocumented_seeds (git : Git) (tree : Tree) (project folder : Location) (altered : Bool)
    (files : List SourceFile) : (seeds git tree project folder altered files).FailsDocumented := by
  unfold seeds
  split
  · exact History.failsDocumented_alteredFiles ..
  · split
    · exact RunM.failsDocumented_pure _
    · exact RunM.failsDocumented_throw trivial

end RegistryBlock
