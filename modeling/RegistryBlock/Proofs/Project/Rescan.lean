import RegistryBlock.Proofs.Project.Members
import RegistryBlock.Proofs.Reach.Unreached
import RegistryBlock.Proofs.Tree.Rewrite

/-!
# Reading a project again

A file is written somewhere and the project is read once more. Unless the file is one of those with
the configuration of the project, the configuration is the same. The files are the same too, but
for the written one if it is eligible.
-/

namespace RegistryBlock

/-- The files that may hold the configuration of a project: its rules, its settings, its packages,
and its aliases, which are also looked for in the directories above. -/
def configurationFiles (project : Location) : List Location :=
  [project.child ".gitignore", project.child Settings.fileName, project.child manifestName] ++
    project.ancestors.map (·.child AliasSettings.fileName)

/-! ### The configuration -/

section Configuration

variable {tree other : Tree} {loc project : Location} {bytes : ByteArray} {yaml : Yaml.Reader}

theorem Settings.fileFor_of_isDirAt (hup : ".." ∉ project.names)
    (hdir : tree.isDirAt project = true) :
    fileFor tree (.ofLocation project) = project.child fileName := by
  rw [fileFor, if_pos (Tree.leadsToDir_ofLocation hup hdir)]
  exact Location.follow_of_up_not_mem (up_not_mem_child hup (by decide)) .root

/-- A file other than the settings is written. -/
theorem Settings.load_eq_of_rewritten (h : tree.Rewritten loc bytes other)
    (hup : ".." ∉ project.names) (hdir : tree.isDirAt project = true)
    (hloc : project.child fileName ≠ loc) :
    load other (.ofLocation project) yaml = load tree (.ofLocation project) yaml := by
  have hother : other.isDirAt project = true := (h.isDirAt_eq project).trans hdir
  unfold load
  dsimp only
  rw [fileFor_of_isDirAt hup hdir, fileFor_of_isDirAt hup hother, h.holds_eq hloc]
  split
  · next hholds => rw [h.readText_eq (up_not_mem_child hup (by decide)) hloc hholds]
  · rfl

theorem IgnoreRule.load_eq_of_rewritten (h : tree.Rewritten loc bytes other)
    (hup : ".." ∉ project.names) (hdir : tree.isDirAt project = true)
    (hsettings : project.child Settings.fileName ≠ loc)
    (hignore : project.child ".gitignore" ≠ loc) :
    load other project yaml = load tree project yaml := by
  have hown : fromIgnoreFile other project = fromIgnoreFile tree project := by
    unfold fromIgnoreFile
    dsimp only
    rw [h.holds_eq hignore]
    split
    · next hholds => rw [h.readText_eq (up_not_mem_child hup (by decide)) hignore hholds]
    · rfl
  rw [load, load, hown, fromSettings, fromSettings,
    Settings.load_eq_of_rewritten h hup hdir hsettings]

theorem manifestText_eq_of_rewritten (h : tree.Rewritten loc bytes other)
    (hup : ".." ∉ project.names) (hloc : project.child manifestName ≠ loc) :
    manifestText other project = manifestText tree project := by
  unfold manifestText
  dsimp only
  rw [h.isFileAt_eq hloc]
  split
  · next hfile =>
    rw [h.readText_eq (up_not_mem_child hup (by decide)) hloc (Tree.holds_of_isFileAt hfile)]
  · rfl

theorem AliasSettings.nearestFile?_eq_of_rewritten (h : tree.Rewritten loc bytes other)
    (hloc : ∀ above ∈ project.ancestors, above.child fileName ≠ loc) :
    nearestFile? other project = nearestFile? tree project := by
  refine List.find?_congr fun file hfile => ?_
  obtain ⟨above, habove, rfl⟩ := List.mem_map.1 hfile
  exact h.isFileAt_eq (hloc above habove)

theorem AliasSettings.load_eq_of_rewritten (h : tree.Rewritten loc bytes other)
    (hup : ".." ∉ project.names)
    (hloc : ∀ above ∈ project.ancestors, above.child fileName ≠ loc) (sourceRoot : Bool) :
    load other (.ofLocation project) sourceRoot = load tree (.ofLocation project) sourceRoot := by
  unfold load
  rw [WrittenPath.resolve_ofLocation hup, nearestFile?_eq_of_rewritten h hloc]
  cases hnearest : nearestFile? tree project with
  | none => rfl
  | some file =>
    have hplace := up_not_mem_of_nearestFile? hup hnearest
    have hholds := Tree.holds_of_isFileAt (List.find?_some hnearest)
    obtain ⟨above, habove, rfl⟩ := List.mem_map.1 (List.mem_of_find?_eq_some hnearest)
    dsimp only
    rw [h.readText_eq hplace (hloc above habove) hholds]

end Configuration

/-! ### The files -/

section Files

variable {tree other : Tree} {loc root : Location} {bytes : ByteArray} {rules : List IgnoreRule}
  {text : String}

/-- The path of the written file, seen from the project: empty if it lies elsewhere. -/
def writtenPath (root loc : Location) : String := pathOf ((root.below? loc).getD [])

theorem writtenPath_eq {names : List String} (h : root.names ++ names = loc.names) :
    writtenPath root loc = pathOf names := by
  rw [writtenPath, Location.below?_eq_some_iff.2 h.symm]
  rfl

theorem Tree.Rewritten.isEntryName (h : tree.Rewritten loc bytes other)
    (hother : other.WellFormed) : ∀ name ∈ loc.names, Tree.IsEntryName name := by
  have hlook := h.look_eq loc.names
  rw [if_pos rfl, Tree.look_eq_some_some_iff] at hlook
  exact hother.isEntryName hlook

/-- Nothing but the written file has its path. -/
theorem append_eq_of_pathOf_eq {names : List String} (hne : names ≠ [])
    (hnames : ∀ name ∈ names, Tree.IsEntryName name)
    (hloc : ∀ name ∈ loc.names, Tree.IsEntryName name)
    (h : pathOf names = writtenPath root loc) : root.names ++ names = loc.names := by
  rw [writtenPath] at h
  cases hbelow : root.below? loc with
  | none =>
    rw [hbelow] at h
    exact absurd h (pathOf_ne_empty hne hnames)
  | some rest =>
    have hrest := Location.below?_eq_some_iff.1 hbelow
    rw [hbelow, Option.getD_some] at h
    have hrestne : rest ≠ [] := by
      rintro rfl
      exact pathOf_ne_empty hne hnames h
    rw [hrest] at hloc ⊢
    rw [pathOf_inj hne hrestne hnames
      (fun name hname => hloc name (List.mem_append_right _ hname)) h]

/-- The files with other paths are as before. -/
theorem mem_projectFiles_iff_of_rewritten (htree : tree.WellFormed) (hother : other.WellFormed)
    (h : tree.Rewritten loc bytes other) {file : SourceFile}
    (hpath : file.path ≠ writtenPath root loc) :
    file ∈ projectFiles tree root rules ↔ file ∈ projectFiles other root rules := by
  have hlook (above : List String) (name : String)
      (hfile : file.path = pathOf (above ++ [name])) :
      other.look (root.names ++ (above ++ [name])) =
        tree.look (root.names ++ (above ++ [name])) := by
    rw [h.look_eq, if_neg]
    intro hnames
    exact hpath (hfile.trans (writtenPath_eq hnames).symm)
  rw [mem_projectFiles htree, mem_projectFiles hother]
  simp only [Tree.get?, ← Tree.look_eq_some_some_iff]
  constructor
  · rintro ⟨above, name, content, hcontent, heligible, hfile, hread⟩
    exact ⟨above, name, content, (hlook above name hfile).trans hcontent, heligible, hfile, hread⟩
  · rintro ⟨above, name, content, hcontent, heligible, hfile, hread⟩
    exact ⟨above, name, content, (hlook above name hfile).symm.trans hcontent, heligible, hfile,
      hread⟩

theorem content_of_rewritten (hother : other.WellFormed) (h : tree.Rewritten loc bytes other)
    (htext : Tree.decode? bytes = some text) {file : SourceFile}
    (hfile : file ∈ projectFiles other root rules)
    (hpath : file.path = writtenPath root loc) : file.content = text := by
  obtain ⟨above, name, content, hget, -, hnames, hread⟩ := (mem_projectFiles hother).1 hfile
  have hentry : ∀ inner ∈ above ++ [name], Tree.IsEntryName inner := fun inner hinner =>
    hother.isEntryName hget inner (List.mem_append_right _ hinner)
  have hloc := append_eq_of_pathOf_eq (by simp) hentry (h.isEntryName hother)
    (hnames.symm.trans hpath)
  have hlook := Tree.look_eq_some_some_iff.2 hget
  rw [hloc, h.look_eq, if_pos rfl] at hlook
  rw [← Option.some.inj (Option.some.inj hlook), htext] at hread
  exact (Option.some.inj hread).symm

/-- Where there was a file of the project, there is the written one now. -/
theorem mem_projectFiles_written (htree : tree.WellFormed) (hother : other.WellFormed)
    (h : tree.Rewritten loc bytes other) (htext : Tree.decode? bytes = some text)
    {file : SourceFile} (hfile : file ∈ projectFiles tree root rules)
    (hpath : file.path = writtenPath root loc) :
    ⟨file.path, text⟩ ∈ projectFiles other root rules := by
  obtain ⟨above, name, content, hget, heligible, hnames, -⟩ := (mem_projectFiles htree).1 hfile
  have hentry : ∀ inner ∈ above ++ [name], Tree.IsEntryName inner := fun inner hinner =>
    htree.isEntryName hget inner (List.mem_append_right _ hinner)
  have hloc := append_eq_of_pathOf_eq (by simp) hentry (h.isEntryName hother)
    (hnames.symm.trans hpath)
  have hlook : other.look (root.names ++ (above ++ [name])) = some (some bytes) := by
    rw [hloc, h.look_eq, if_pos rfl]
  exact (mem_projectFiles hother).2
    ⟨above, name, bytes, Tree.look_eq_some_some_iff.1 hlook, heligible, hnames, htext⟩

theorem path_of_find?_path_eq_some {files : List SourceFile} {path : String} {file : SourceFile}
    (h : files.find? (·.path = path) = some file) : file.path = path := by
  simpa using List.find?_some h

theorem find?_path_eq_some {files : List SourceFile}
    (h : files.Pairwise fun file other => file.path < other.path) {file : SourceFile}
    (hfile : file ∈ files) {path : String} (hpath : file.path = path) :
    files.find? (·.path = path) = some file := by
  have hnodup := SourceFile.nodup_path h
  cases hfind : files.find? (·.path = path) with
  | none =>
    have hnot := List.find?_eq_none.1 hfind file hfile
    exact absurd (decide_eq_true hpath) hnot
  | some found =>
    have hfound := path_of_find?_path_eq_some hfind
    exact congrArg some (List.inj_on_of_nodup_map hnodup (List.mem_of_find?_eq_some hfind) hfile
      (hfound.trans hpath.symm))

/-- The files are as before, but for the written one. -/
theorem projectFiles_eq_filterMap_before (htree : tree.WellFormed) (hother : other.WellFormed)
    (h : tree.Rewritten loc bytes other) (htext : Tree.decode? bytes = some text) :
    projectFiles tree root rules =
      (projectFiles other root rules).filterMap (SourceFile.before (writtenPath root loc)
        ((projectFiles tree root rules).find? (·.path = writtenPath root loc))) := by
  have hsorted := pairwise_projectFiles htree root rules
  have hold : ∀ old ∈ (projectFiles tree root rules).find? (·.path = writtenPath root loc),
      old.path = writtenPath root loc := fun old hold => path_of_find?_path_eq_some hold
  refine SourceFile.eq_of_mem_iff hsorted ?_ fun file => ?_
  · refine (pairwise_projectFiles hother root rules).filterMap _ fun a b hlt a' ha b' hb => ?_
    rw [SourceFile.path_of_before_eq_some hold ha, SourceFile.path_of_before_eq_some hold hb]
    exact hlt
  · rw [List.mem_filterMap]
    constructor
    · intro hfile
      by_cases hpath : file.path = writtenPath root loc
      · refine ⟨⟨file.path, text⟩, mem_projectFiles_written htree hother h htext hfile hpath, ?_⟩
        rw [SourceFile.before, if_pos hpath]
        exact find?_path_eq_some hsorted hfile hpath
      · exact ⟨file, (mem_projectFiles_iff_of_rewritten htree hother h hpath).1 hfile,
          SourceFile.before_of_ne hpath⟩
    · rintro ⟨next, hnext, hbefore⟩
      by_cases hpath : next.path = writtenPath root loc
      · rw [SourceFile.before, if_pos hpath] at hbefore
        exact List.mem_of_find?_eq_some hbefore
      · rw [SourceFile.before_of_ne hpath] at hbefore
        obtain rfl := Option.some.inj hbefore
        exact (mem_projectFiles_iff_of_rewritten htree hother h hpath).2 hnext

theorem filesIn_filterMap_before {path : String} {old? : Option SourceFile}
    (hold : ∀ old ∈ old?, old.path = path) (names : List String) (files : List SourceFile) :
    filesIn names (files.filterMap (SourceFile.before path old?)) =
      (filesIn names files).filterMap (SourceFile.before path old?) := by
  unfold filesIn
  split
  · rfl
  · dsimp only
    rw [List.filter_filterMap, List.filterMap_filter]
    refine List.filterMap_congr fun file _ => ?_
    cases hbefore : SourceFile.before path old? file with
    | none => simp
    | some other =>
      rw [Option.filter_some, SourceFile.key_of_before_eq_some hold hbefore]

end Files

/-! ### The block -/

section Stages

variable {tree : Tree} {project folder : Location} {yaml : Yaml.Reader}
  {files start : List SourceFile}

theorem result_scanProject_eq_ok_iff (hup : ".." ∉ project.names) :
    (scanProject tree (.ofLocation project) yaml).finish.1 = .ok files ↔
      tree.isDirAt project = true ∧
        ∃ rules, (IgnoreRule.load tree project yaml).finish.1 = .ok rules ∧
          projectFiles tree project rules = files := by
  rw [result_scanProject, WrittenPath.resolve_ofLocation hup]
  by_cases hdir : tree.isDirAt project = true
  · rw [if_pos (Tree.holds_of_isDirAt hdir), if_pos hdir, and_iff_right hdir]
    cases (IgnoreRule.load tree project yaml).finish.1 with
    | error failure => simp [Except.map]
    | ok rules => simp [Except.map]
  · rw [if_neg hdir]
    constructor
    · intro h
      split at h <;> cases h
    · exact fun h => absurd h.1 hdir

theorem Block.ofSeeds_eq_ok_iff {name manifest : String} {aliases : AliasSettings}
    {block : Block} : Block.ofSeeds name aliases start files manifest = .ok block ↔
      ∃ declared, Manifest.parse manifest = .ok declared ∧
        Block.ofFiles name aliases (ImportMap.reached ⟨files, .ofSettings aliases⟩ start) files
          declared = block := by
  rw [ofSeeds_eq]
  cases Manifest.parse manifest with
  | error e => simp [Except.map]
  | ok declared => simp [Except.map]

/-- The block of a folder comes from the files of the project and its configuration. -/
theorem result_build_folder_eq_ok_iff {git : Git} {path : WrittenPath} {order : Order}
    {block : Block} (horder : order.altered = false) :
    (build git tree path order yaml).finish.1 = .ok block ↔
      let project := path.resolve .root
      let folder := order.folderIn project
      ∃ settings rules names manifest aliases declared,
        Settings.load tree (.ofLocation project) yaml = .ok settings ∧
        tree.isDirAt project = true ∧ (IgnoreRule.load tree project yaml).finish.1 = .ok rules ∧
        tree.isDirAt folder = true ∧ project.below? folder = some names ∧
        manifestText tree project = .ok manifest ∧
        AliasSettings.load tree (.ofLocation project)
          (AliasSettings.hasSourceRoot tree (.ofLocation project)) = .ok aliases ∧
        Manifest.parse manifest = .ok declared ∧
        let files := projectFiles tree project rules
        Block.ofFiles (order.blockName settings folder) aliases
          (ImportMap.reached ⟨files, .ofSettings aliases⟩ (filesIn names files)) files declared =
            block := by
  have hup : ".." ∉ (path.resolve .root).names :=
    WrittenPath.up_not_mem_resolve List.not_mem_nil path
  rw [result_build_eq_ok_iff, horder]
  constructor
  · rintro ⟨settings, hsettings, files, hscan, start, hstart, manifest, hmanifest, aliases,
      haliases, hblock⟩
    obtain ⟨hdir, rules, hrules, rfl⟩ := (result_scanProject_eq_ok_iff hup).1 hscan
    obtain ⟨hfolder, names, hnames, rfl⟩ :=
      folderFiles_eq_ok_iff.1 ((result_seeds_eq_ok_iff git).1 hstart)
    obtain ⟨declared, hdeclared, hblock⟩ := Block.ofSeeds_eq_ok_iff.1 hblock
    exact ⟨settings, rules, names, manifest, aliases, declared, hsettings, hdir, hrules, hfolder,
      hnames, hmanifest, haliases, hdeclared, hblock⟩
  · rintro ⟨settings, rules, names, manifest, aliases, declared, hsettings, hdir, hrules, hfolder,
      hnames, hmanifest, haliases, hdeclared, hblock⟩
    have hscan := (result_scanProject_eq_ok_iff hup).2 ⟨hdir, rules, hrules, rfl⟩
    refine ⟨settings, hsettings, _, hscan, _, ?_, manifest, hmanifest, aliases, haliases,
      Block.ofSeeds_eq_ok_iff.2 ⟨declared, hdeclared, hblock⟩⟩
    exact (result_seeds_eq_ok_iff git).2 (folderFiles_eq_ok_iff.2 ⟨hfolder, names, hnames, rfl⟩)

end Stages

section Again

variable {git : Git} {tree other : Tree} {path : WrittenPath} {order : Order} {yaml : Yaml.Reader}
  {loc : Location} {bytes : ByteArray} {text : String} {block : Block}

/-- If the written file is not reached, the files that are reached are the same. -/
theorem reached_eq_of_forall_content_ne (htree : tree.WellFormed) (hother : other.WellFormed)
    (h : tree.Rewritten loc bytes other) (htext : Tree.decode? bytes = some text) {root : Location}
    {rules : List IgnoreRule} {names : List String} {table : AliasTable}
    (hreached : ∀ file ∈ ImportMap.reached ⟨projectFiles other root rules, table⟩
      (filesIn names (projectFiles other root rules)), file.content ≠ text) :
    ImportMap.reached ⟨projectFiles tree root rules, table⟩
        (filesIn names (projectFiles tree root rules)) =
      ImportMap.reached ⟨projectFiles other root rules, table⟩
        (filesIn names (projectFiles other root rules)) := by
  have hseeds := filesIn_subset names (projectFiles other root rules)
  have hold : ∀ old ∈ (projectFiles tree root rules).find? (·.path = writtenPath root loc),
      old.path = writtenPath root loc := fun old hold => path_of_find?_path_eq_some hold
  rw [projectFiles_eq_filterMap_before htree hother h htext, filesIn_filterMap_before hold]
  refine ImportMap.reached_filterMap_before hold hseeds fun file hfile hpath => ?_
  exact hreached file hfile
    (content_of_rewritten hother h htext (ImportMap.reached_subset hseeds hfile) hpath)

/-- A project is built again after a file was written that is none of its configuration. The block
is the same if the written file is not scanned. If it is, the block is the same unless it holds this
file or refers to other components. -/
theorem exists_build_again (htree : tree.WellFormed) (hother : other.WellFormed)
    (h : tree.Rewritten loc bytes other) (htext : Tree.decode? bytes = some text)
    (hloc : loc ∉ configurationFiles (path.resolve .root)) (horder : order.altered = false)
    (hbuild : (build git tree path order yaml).finish.1 = .ok block) :
    ∃ again files, (build git other path order yaml).finish.1 = .ok again ∧
      (scanProject other (.ofLocation (path.resolve .root)) yaml).finish.1 = .ok files ∧
      ((∀ file ∈ files, file.path ≠ writtenPath (path.resolve .root) loc) → again = block) ∧
      ((∀ entry ∈ again.files, entry.content ≠ text) →
        again.registryDependencies = block.registryDependencies → again = block) := by
  let project := path.resolve .root
  have hup : ".." ∉ project.names := WrittenPath.up_not_mem_resolve List.not_mem_nil path
  simp only [configurationFiles, List.mem_append, List.mem_cons, List.not_mem_nil, or_false,
    List.mem_map, not_or, not_exists, not_and] at hloc
  obtain ⟨⟨hignore, hsettingsFile, hmanifestFile⟩, haliasesFile⟩ := hloc
  obtain ⟨settings, rules, names, manifest, aliases, declared, hsettings, hdir, hrules, hfolder,
    hnames, hmanifest, haliases, hdeclared, rfl⟩ := (result_build_folder_eq_ok_iff horder).1 hbuild
  let files := projectFiles other project rules
  let again := Block.ofFiles (order.blockName settings (order.folderIn project)) aliases
    (ImportMap.reached ⟨files, .ofSettings aliases⟩ (filesIn names files)) files declared
  -- every stage finds what it found before, but for the files
  rw [← Settings.load_eq_of_rewritten h hup hdir (Ne.symm hsettingsFile)] at hsettings
  rw [← IgnoreRule.load_eq_of_rewritten h hup hdir (Ne.symm hsettingsFile) (Ne.symm hignore)]
    at hrules
  rw [← manifestText_eq_of_rewritten h hup (Ne.symm hmanifestFile)] at hmanifest
  have hroot : AliasSettings.hasSourceRoot other (.ofLocation project) =
      AliasSettings.hasSourceRoot tree (.ofLocation project) := h.leadsToDir_eq _
  rw [← AliasSettings.load_eq_of_rewritten h hup haliasesFile, ← hroot] at haliases
  rw [← h.isDirAt_eq] at hdir hfolder
  have hagain : (build git other path order yaml).finish.1 = .ok again :=
    (result_build_folder_eq_ok_iff horder).2 ⟨settings, rules, names, manifest, aliases, declared,
      hsettings, hdir, hrules, hfolder, hnames, hmanifest, haliases, hdeclared, rfl⟩
  have hscan : (scanProject other (.ofLocation project) yaml).finish.1 = .ok files :=
    (result_scanProject_eq_ok_iff hup).2 ⟨hdir, rules, hrules, rfl⟩
  refine ⟨again, files, hagain, hscan, fun hscanned => ?_, fun hentries hreferences => ?_⟩
  · have hfiles : projectFiles tree project rules = files := by
      rw [projectFiles_eq_filterMap_before htree hother h htext]
      exact SourceFile.filterMap_before_eq_self hscanned
    rw [hfiles]
  · have hreached : ImportMap.reached ⟨projectFiles tree project rules, .ofSettings aliases⟩
        (filesIn names (projectFiles tree project rules)) =
          ImportMap.reached ⟨files, .ofSettings aliases⟩ (filesIn names files) :=
      reached_eq_of_forall_content_ne htree hother h htext fun file hfile => by
        have hentry := hentries _ (List.mem_map_of_mem hfile)
        rwa [BlockFile.content_ofSource] at hentry
    have hsame : Kit.references aliases files =
      Kit.references aliases (projectFiles tree project rules) := hreferences
    simp only [again, Block.ofFiles, hsame]
    rw [hreached]

end Again

end RegistryBlock
