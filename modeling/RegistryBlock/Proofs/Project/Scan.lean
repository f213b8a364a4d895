import RegistryBlock.Proofs.Project.Eligible
import RegistryBlock.Proofs.Project.Run

/-!
# Reading a project

The files of a project are listed in the strict order of their paths, and a file is among them if
and only if it is eligible and text. The listing order of its directories plays no part.
-/

namespace RegistryBlock

variable {yaml : Yaml.Reader}

namespace SourceFile

theorem pairwise_le_sort (files : List SourceFile) :
    (sort files).Pairwise fun file other => file.path ≤ other.path := by
  refine (List.pairwise_mergeSort (fun a b c hab hbc => ?_) (fun a b => ?_) files).imp ?_
  · exact decide_eq_true (String.le_trans (of_decide_eq_true hab) (of_decide_eq_true hbc))
  · simpa using String.le_total a.path b.path
  · exact fun h => of_decide_eq_true h

theorem pairwise_lt_sort {files : List SourceFile} (h : (files.map path).Nodup) :
    (sort files).Pairwise fun file other => file.path < other.path := by
  have hperm : (sort files).Perm files := List.mergeSort_perm files _
  have hne : (sort files).Pairwise fun file other => file.path ≠ other.path :=
    List.pairwise_map.1 ((hperm.map path).nodup_iff.2 h)
  apply ((pairwise_le_sort files).and hne).imp
  intro file other hboth
  exact String.not_le.1 fun hle => hboth.2 (String.le_antisymm hboth.1 hle)

theorem nodup_path {files : List SourceFile}
    (h : files.Pairwise fun file other => file.path < other.path) : (files.map path).Nodup := by
  refine List.pairwise_map.2 (h.imp fun hlt heq => ?_)
  rw [heq] at hlt
  exact String.lt_irrefl _ hlt

/-- Files in the strict order of their paths are determined by which ones they are. -/
theorem eq_of_mem_iff {files others : List SourceFile}
    (h : files.Pairwise fun file other => file.path < other.path)
    (h' : others.Pairwise fun file other => file.path < other.path)
    (hmem : ∀ file, file ∈ files ↔ file ∈ others) : files = others := by
  have hperm := (List.perm_ext_iff_of_nodup (nodup_path h).of_map (nodup_path h').of_map).2 hmem
  refine List.Perm.eq_of_pairwise (fun file other _ _ hlt hlt' => ?_) h h' hperm
  exact absurd (String.lt_trans hlt hlt') (String.lt_irrefl _)

theorem sort_eq_of_perm {files sorted : List SourceFile} (hperm : files.Perm sorted)
    (h : sorted.Pairwise fun file other => file.path < other.path) : sort files = sorted := by
  refine eq_of_mem_iff (pairwise_lt_sort ((hperm.map path).nodup_iff.2 (nodup_path h))) h
    fun file => ?_
  rw [sort, List.mem_mergeSort, hperm.mem_iff]

theorem ofBytes?_eq_some_iff {entry : String × ByteArray} {file : SourceFile} :
    ofBytes? entry = some file ↔
      file.path = entry.1 ∧ Tree.decode? entry.2 = some file.content := by
  rw [ofBytes?, Option.map_eq_some_iff]
  constructor
  · rintro ⟨content, hcontent, rfl⟩
    exact ⟨rfl, hcontent⟩
  · rintro ⟨hpath, hcontent⟩
    exact ⟨file.content, hcontent, by rw [← hpath]⟩

end SourceFile

section Files

variable {tree : Tree} {root : Location} {rules : List IgnoreRule}

theorem pairwise_projectFiles (h : tree.WellFormed) (root : Location) (rules : List IgnoreRule) :
    (projectFiles tree root rules).Pairwise fun file other => file.path < other.path := by
  rw [projectFiles]
  apply SourceFile.pairwise_lt_sort
  refine List.pairwise_map.2 (List.Pairwise.filterMap _ (R := fun entry other => entry.1 ≠ other.1)
    (fun entry other hne file hfile file' hfile' => ?_) ?_)
  · rw [(SourceFile.ofBytes?_eq_some_iff.1 hfile).1, (SourceFile.ofBytes?_eq_some_iff.1 hfile').1]
    exact hne
  · cases hproject : tree.get? root with
    | none => exact List.Pairwise.nil
    | some project =>
      exact List.pairwise_map.1 (Tree.nodup_map_fst_eligible (h.descend? hproject) rules)

theorem mem_projectFiles (h : tree.WellFormed) {file : SourceFile} :
    file ∈ projectFiles tree root rules ↔
      ∃ above name bytes, tree.get? ⟨root.names ++ (above ++ [name])⟩ = some (.file bytes) ∧
        IsEligible rules [] above name ∧ file.path = pathOf (above ++ [name]) ∧
        Tree.decode? bytes = some file.content := by
  rw [projectFiles, SourceFile.sort, List.mem_mergeSort, List.mem_filterMap]
  simp only [Tree.get?, Tree.descend?_append _ root.names, SourceFile.ofBytes?_eq_some_iff]
  cases hproject : tree.descend? root.names with
  | none => simp
  | some project =>
    simp only [Option.map_some, Option.getD_some, Option.bind_some,
      Tree.mem_eligible (h.descend? hproject)]
    constructor
    · rintro ⟨entry, ⟨above, name, bytes, hdescend, heligible, rfl⟩, hpath, hcontent⟩
      exact ⟨above, name, bytes, hdescend, heligible, hpath, hcontent⟩
    · rintro ⟨above, name, bytes, hdescend, heligible, hpath, hcontent⟩
      exact ⟨_, ⟨above, name, bytes, hdescend, heligible, rfl⟩, hpath, hcontent⟩

/-- Trees that look the same hold the same files. -/
theorem projectFiles_eq_of_agrees {other : Tree} (h : tree.WellFormed) (hother : other.WellFormed)
    (hagrees : tree.Agrees other) :
    projectFiles tree root rules = projectFiles other root rules := by
  refine SourceFile.eq_of_mem_iff (pairwise_projectFiles h root rules)
    (pairwise_projectFiles hother root rules) fun file => ?_
  rw [mem_projectFiles h, mem_projectFiles hother]
  simp only [Tree.get?, ← Tree.look_eq_some_some_iff, hagrees _]

end Files

theorem Settings.load_eq_of_agrees {tree other : Tree} (h : tree.Agrees other)
    (path : WrittenPath) : load tree path yaml = load other path yaml := by
  have hfile : fileFor tree path = fileFor other path := by
    rw [fileFor, fileFor, h.leadsToDir_eq]
  unfold load
  dsimp only
  rw [hfile, h.holds_eq, h.readText_eq]

namespace IgnoreRule

variable {tree : Tree} {root : Location}

/-- The rules in the ignore file of a directory. Without such a file there are none. -/
def own (tree : Tree) (root : Location) : List IgnoreRule :=
  match tree.readText (root.child ".gitignore") with
  | .ok text => ofFile text
  | .error _ => []

/-- The rules for the patterns in the settings of a directory. Settings that cannot be used have
none. -/
def excluded (tree : Tree) (root : Location) (yaml : Yaml.Reader) : List IgnoreRule :=
  match Settings.load tree (.ofLocation root) yaml with
  | .ok settings => ofExcludes settings.excludes
  | .error _ => []

theorem fromIgnoreFile_eq_own {rules : List IgnoreRule} (h : fromIgnoreFile tree root = .ok rules) :
    rules = own tree root := by
  unfold fromIgnoreFile at h
  unfold own
  dsimp only at h
  split at h
  · cases htext : tree.readText (root.child ".gitignore") with
    | error fault =>
      rw [htext] at h
      cases h
    | ok text =>
      rw [htext] at h
      exact (Except.ok.inj h).symm
  · next hmissing =>
    obtain ⟨fault, htext⟩ := Tree.exists_readText_eq_error (by simpa using hmissing)
    rw [htext]
    exact (Except.ok.inj h).symm

theorem result_fromSettings {trace : Trace} {rules : List IgnoreRule}
    (h : ((fromSettings tree root yaml).runFrom trace).1 = .ok rules) :
    rules = excluded tree root yaml := by
  unfold fromSettings at h
  unfold excluded
  cases hload : Settings.load tree (.ofLocation root) yaml with
  | ok settings =>
    rw [hload] at h
    exact (Except.ok.inj h).symm
  | error failure =>
    rw [hload] at h
    cases failure with
    | settings e => exact (Except.ok.inj h).symm
    | _ => cases h

theorem result_load {trace : Trace} {rules : List IgnoreRule}
    (h : ((load tree root yaml).runFrom trace).1 = .ok rules) :
    rules = own tree root ++ excluded tree root yaml := by
  obtain ⟨ownRules, later, hown, h⟩ := RunM.exists_of_runFrom_bind_eq_ok h
  obtain ⟨settingsRules, last, hsettings, h⟩ := RunM.exists_of_runFrom_bind_eq_ok h
  rw [RunM.runFrom_ofExcept] at hown
  rw [← fromIgnoreFile_eq_own (congrArg Prod.fst hown),
    ← result_fromSettings (congrArg Prod.fst hsettings)]
  exact (Except.ok.inj h).symm

theorem load_eq_of_agrees {other : Tree} (h : tree.Agrees other) (root : Location) :
    load tree root yaml = load other root yaml := by
  have hown : fromIgnoreFile tree root = fromIgnoreFile other root := by
    unfold fromIgnoreFile
    dsimp only
    rw [h.holds_eq, h.readText_eq]
  rw [load, load, hown, fromSettings, fromSettings, Settings.load_eq_of_agrees h]

end IgnoreRule

section Scan

variable {tree : Tree} {path : WrittenPath}

theorem result_scanProject (tree : Tree) (path : WrittenPath) :
    (scanProject tree path yaml).finish.1 =
      if tree.holds (path.resolve .root) then
        if tree.isDirAt (path.resolve .root) then
          (IgnoreRule.load tree (path.resolve .root) yaml).finish.1.map
            (projectFiles tree (path.resolve .root))
        else .error (.path (.projectNoDirectory path.text))
      else .error (.path (.projectMissing path.text)) := by
  rw [RunM.finish_eq, RunM.finish_eq, scanProject]
  by_cases hholds : tree.holds (path.resolve .root) = true
  · by_cases hdir : tree.isDirAt (path.resolve .root) = true
    · simp only [hholds, hdir, Bool.not_true, Bool.false_eq_true, if_false, if_true,
        RunM.runFrom_bind, RunM.runFrom_forIn_log, RunM.runFrom_log, RunM.runFrom_pure]
      rcases (IgnoreRule.load tree (path.resolve .root) yaml).runFrom {} with
        ⟨failure | rules, later⟩ <;> rfl
    · simp only [hholds, hdir, Bool.not_true, Bool.false_eq_true, if_false, if_true]
      rfl
  · simp only [hholds]
    rfl

/-- Trees that look the same are read the same. -/
theorem result_scanProject_eq_of_agrees {other : Tree} (h : tree.WellFormed)
    (hother : other.WellFormed) (hagrees : tree.Agrees other) (path : WrittenPath) :
    (scanProject tree path yaml).finish.1 = (scanProject other path yaml).finish.1 := by
  have hfiles : projectFiles tree (path.resolve .root) =
      projectFiles other (path.resolve .root) := by
    funext rules
    exact projectFiles_eq_of_agrees h hother hagrees
  rw [result_scanProject, result_scanProject, hagrees.holds_eq, hagrees.isDirAt_eq,
    IgnoreRule.load_eq_of_agrees hagrees, hfiles]

/-- Reading a project lists its eligible text files in the strict order of their paths, with the
rules of its ignore file before those of its settings, however its directories are listed. -/
theorem scanProject_lists_eligible {files : List SourceFile} (h : tree.WellFormed)
    (hrun : (scanProject tree path yaml).finish.1 = .ok files) :
    let root := path.resolve .root
    let rules := IgnoreRule.own tree root ++ IgnoreRule.excluded tree root yaml
    (files.Pairwise fun file other => file.path < other.path) ∧
      (∀ file, file ∈ files ↔
        ∃ above name bytes, tree.get? ⟨root.names ++ (above ++ [name])⟩ = some (.file bytes) ∧
          IsEligible rules [] above name ∧ file.path = pathOf (above ++ [name]) ∧
          Tree.decode? bytes = some file.content) ∧
      ∀ other, tree.Rearranged other → (scanProject other path yaml).finish.1 = .ok files := by
  intro root rules
  have hfiles : files = projectFiles tree root rules := by
    rw [result_scanProject] at hrun
    split at hrun
    · split at hrun
      · cases hload : (IgnoreRule.load tree (path.resolve .root) yaml).finish.1 with
        | error failure =>
          rw [hload] at hrun
          cases hrun
        | ok loaded =>
          rw [hload, IgnoreRule.result_load hload] at hrun
          exact (Except.ok.inj hrun).symm
      · cases hrun
    · cases hrun
  refine ⟨?_, fun file => ?_, fun other hother => ?_⟩
  · rw [hfiles]
    exact pairwise_projectFiles h root rules
  · rw [hfiles]
    exact mem_projectFiles h
  · rw [← hrun]
    exact (result_scanProject_eq_of_agrees h (hother.wellFormed h) (hother.agrees h) path).symm

theorem scanProject_lists_eligible_kit :
    let kit : List (String × Tree) :=
      [(".gitignore", .file "out/\n*.log\n!b.log".toUTF8), ("a.log", .file "x".toUTF8),
        ("b.log", .file "y\r\n".toUTF8), ("logo", .file ⟨#[255]⟩),
        ("out", .dir [("c.ts", .file "z".toUTF8)])]
    let tree : Tree := .dir [("kit", .dir kit)]
    let path : WrittenPath := ⟨"/", ["kit"]⟩
    let files : List SourceFile := [⟨".gitignore", "out/\n*.log\n!b.log"⟩, ⟨"b.log", "y\n"⟩]
    tree.WellFormed ∧ (scanProject tree path Yaml.reader).finish.1 = .ok files ∧
      ∀ other, tree.Rearranged other →
        (scanProject other path Yaml.reader).finish.1 = .ok files := by
  intro kit tree path files
  have hout : (Tree.dir [("c.ts", .file "z".toUTF8)]).WellFormed :=
    .dir (by decide) (by decide) (by simpa using .file _)
  have hkit : (Tree.dir kit).WellFormed := by
    apply Tree.WellFormed.dir (by decide) (by decide)
    simp only [kit, List.forall_mem_cons]
    exact ⟨.file _, .file _, .file _, .file _, hout, fun _ h => nomatch h⟩
  have htree : tree.WellFormed := .dir (by decide) (by decide) (by simpa [tree] using hkit)
  have hrun : (scanProject tree path Yaml.reader).finish.1 = .ok files := by
    have hload : (IgnoreRule.load tree (path.resolve .root) Yaml.reader).finish.1 =
        .ok (IgnoreRule.ofFile "out/\n*.log\n!b.log") := by
      decide +kernel
    rw [result_scanProject, if_pos (by decide +kernel), if_pos (by decide +kernel), hload]
    apply congrArg Except.ok
    exact SourceFile.sort_eq_of_perm (by decide +kernel) (by decide +kernel)
  exact ⟨htree, hrun, (scanProject_lists_eligible htree hrun).2.2⟩

end Scan

end RegistryBlock
