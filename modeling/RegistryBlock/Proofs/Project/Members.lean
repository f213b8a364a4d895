import RegistryBlock.Proofs.Project.Build
import RegistryBlock.Proofs.Tree.Follow

/-!
# The files of a block

Files come into a block as seeds, from a folder or from the changes that git knows of, and because
other files of the block import them. None of these ways leads past the files that the scan lists,
and a path that the settings exclude is never on that list.
-/

namespace RegistryBlock

/-- Whether one of the patterns of the settings applies to a file or to a directory above it. -/
inductive IsExcluded (patterns : List String) (path : String) : Prop where
  | file {pattern : String} {rule : IgnoreRule} (hpattern : pattern ∈ patterns)
      (hrule : IgnoreRule.ofPattern? false pattern.toList = some rule)
      (happlies : rule.applies path.toList false = true)
  | directory {pattern : String} {rule : IgnoreRule} (directory rest : String)
      (hpattern : pattern ∈ patterns)
      (hrule : IgnoreRule.ofPattern? false pattern.toList = some rule)
      (hpath : path = directory ++ "/" ++ rest)
      (happlies : rule.applies directory.toList true = true)

/-- The patterns of the settings stand behind all other rules, and none of them is negated. -/
theorem IgnoreRule.leavesOut_append_ofExcludes {patterns : List String} {pattern : String}
    {rule : IgnoreRule} (hpattern : pattern ∈ patterns)
    (hrule : ofPattern? false pattern.toList = some rule) {path : List Char} {isDirectory : Bool}
    (happlies : rule.applies path isDirectory = true) (own : List IgnoreRule) :
    LeavesOut (own ++ ofExcludes patterns) path isDirectory := by
  refine leavesOut_append_of_mem (fun other hother _ => ?_)
    (mem_ofExcludes.2 ⟨pattern, hpattern, hrule⟩) happlies
  obtain ⟨source, -, hsource⟩ := mem_ofExcludes.1 hother
  exact negated_of_ofPattern? hsource

section Seeds

variable {git : Git} {tree : Tree} {trace : Trace} {project folder : Location}
variable {files found : List SourceFile}

theorem filesIn_subset (names : List String) (files : List SourceFile) :
    filesIn names files ⊆ files := by
  unfold filesIn
  split
  · exact List.Subset.refl _
  · exact List.filter_sublist.subset

theorem folderFiles_eq_ok_iff : folderFiles tree project folder files = .ok found ↔
    tree.isDirAt folder = true ∧ ∃ names, project.below? folder = some names ∧
      filesIn names files = found := by
  unfold folderFiles
  split
  · next hdir =>
    rw [and_iff_right hdir]
    cases project.below? folder <;> simp
  · next hdir => simp [hdir]

theorem folderFiles_subset (h : folderFiles tree project folder files = .ok found) :
    found ⊆ files := by
  obtain ⟨-, names, -, rfl⟩ := folderFiles_eq_ok_iff.1 h
  exact filesIn_subset names files

theorem result_seeds (git : Git) (tree : Tree) (project folder : Location)
    (files : List SourceFile) : (seeds git tree project folder false files).finish.1 =
      (folderFiles tree project folder files).mapError .path := by
  rw [seeds, if_neg Bool.false_ne_true]
  cases folderFiles tree project folder files <;> rfl

theorem result_seeds_eq_ok_iff (git : Git) :
    (seeds git tree project folder false files).finish.1 = .ok found ↔
      folderFiles tree project folder files = .ok found := by
  rw [result_seeds, mapError_eq_ok_iff]

theorem History.alteredSince_subset {repo : Location} {commit : String} {paths : List String}
    (h : ((alteredSince git repo commit paths files).runFrom trace).1 = .ok found) :
    found ⊆ files := by
  induction files generalizing trace found with
  | nil =>
    rw [← Except.ok.inj h]
    exact List.Subset.refl _
  | cons file files ih =>
    obtain ⟨altered, later, -, h⟩ := RunM.exists_of_runFrom_bind_eq_ok h
    obtain ⟨more, last, hmore, h⟩ := RunM.exists_of_runFrom_bind_eq_ok h
    have hrest : more ⊆ files := ih (congrArg Prod.fst hmore)
    rw [← Except.ok.inj h]
    split
    · exact List.cons_subset_cons file hrest
    · exact List.subset_cons_of_subset file hrest

theorem History.alteredFiles_subset {path : WrittenPath}
    (h : ((alteredFiles git tree path files).runFrom trace).1 = .ok found) : found ⊆ files := by
  obtain ⟨repo, _, -, h⟩ := RunM.exists_of_runFrom_bind_eq_ok h
  obtain ⟨commit, _, -, h⟩ := RunM.exists_of_runFrom_bind_eq_ok h
  obtain ⟨listing, _, -, h⟩ := RunM.exists_of_runFrom_bind_eq_ok h
  obtain ⟨altered, later, haltered, h⟩ := RunM.exists_of_runFrom_bind_eq_ok h
  rw [← Except.ok.inj h]
  exact alteredSince_subset (congrArg Prod.fst haltered)

/-- The seeds are files of the project, whichever way they are found. -/
theorem seeds_subset {altered : Bool}
    (h : (seeds git tree project folder altered files).finish.1 = .ok found) : found ⊆ files := by
  cases altered with
  | true => exact History.alteredFiles_subset h
  | false => exact folderFiles_subset ((result_seeds_eq_ok_iff git).1 h)

end Seeds

section Members

variable {git : Git} {tree : Tree} {path : WrittenPath} {order : Order} {yaml : Yaml.Reader}
  {block : Block}

/-- A path that the settings exclude is not scanned, whatever the ignore file says. -/
theorem not_isExcluded_of_mem_scanProject {files : List SourceFile} {settings : Settings}
    (h : tree.WellFormed) (hscan : (scanProject tree path yaml).finish.1 = .ok files)
    (hsettings : Settings.load tree (.ofLocation (path.resolve .root)) yaml = .ok settings)
    {file : SourceFile} (hfile : file ∈ files) : ¬ IsExcluded settings.excludes file.path := by
  obtain ⟨above, name, bytes, hget, heligible, hpath, -⟩ :=
    ((scanProject_lists_eligible h hscan).2.1 file).1 hfile
  have hnames : ∀ inner ∈ above ++ [name], Tree.IsEntryName inner := fun inner hinner =>
    h.isEntryName hget inner (List.mem_append_right _ hinner)
  have hrules : IgnoreRule.excluded tree (path.resolve .root) yaml =
      IgnoreRule.ofExcludes settings.excludes := by
    rw [IgnoreRule.excluded, hsettings]
  rw [hrules] at heligible
  intro hexcluded
  cases hexcluded with
  | file hpattern hrule happlies =>
    rw [hpath] at happlies
    exact heligible.not_leavesOut
      (IgnoreRule.leavesOut_append_ofExcludes hpattern hrule happlies _)
  | directory directory rest hpattern hrule hsplit happlies =>
    rw [hpath] at hsplit
    exact heligible.not_leavesOut_directory hnames hsplit
      (IgnoreRule.leavesOut_append_ofExcludes hpattern hrule happlies _)

/-- The location of a project is scanned like the path that leads there. -/
theorem scanProject_of_ofLocation_eq_ok {files : List SourceFile}
    (h : (scanProject tree (.ofLocation (path.resolve .root)) yaml).finish.1 = .ok files) :
    (scanProject tree path yaml).finish.1 = .ok files := by
  rw [result_scanProject, WrittenPath.resolve_ofLocation_resolve] at h
  rw [result_scanProject]
  split at h
  · next hholds =>
    rw [if_pos hholds]
    split at h
    · next hdir => rw [if_pos hdir, h]
    · cases h
  · cases h

theorem BlockFile.content_ofSource (aliases : AliasSettings) (file : SourceFile) :
    (ofSource aliases file).content = file.content := by
  unfold ofSource
  split
  · split <;> rfl
  · rfl

theorem Block.ofSeeds_files {name manifest : String} {aliases : AliasSettings}
    {start files : List SourceFile}
    (h : Block.ofSeeds name aliases start files manifest = .ok block) :
    block.files = (ImportMap.reached ⟨files, .ofSettings aliases⟩ start).map
      (BlockFile.ofSource aliases) := by
  rw [ofSeeds_eq] at h
  cases hmanifest : Manifest.parse manifest with
  | error e =>
    rw [hmanifest] at h
    cases h
  | ok declared =>
    rw [hmanifest] at h
    rw [← Except.ok.inj h]
    rfl

/-- Every file of a block is one of the scanned files, with its content, and none of them is
excluded by the settings, no matter how the block came to hold it. -/
theorem build_files_scanned (h : tree.WellFormed)
    (hbuild : (build git tree path order yaml).finish.1 = .ok block) :
    ∃ files settings aliases, (scanProject tree path yaml).finish.1 = .ok files ∧
      Settings.load tree (.ofLocation (path.resolve .root)) yaml = .ok settings ∧
      AliasSettings.load tree (.ofLocation (path.resolve .root))
        (AliasSettings.hasSourceRoot tree (.ofLocation (path.resolve .root))) = .ok aliases ∧
      (∀ file ∈ files, ¬ IsExcluded settings.excludes file.path) ∧
      ∀ entry ∈ block.files, ∃ file ∈ files, entry = BlockFile.ofSource aliases file ∧
        entry.content = file.content ∧ ¬ IsExcluded settings.excludes file.path := by
  obtain ⟨settings, hsettings, files, hscan, start, hstart, manifest, -, aliases, haliases,
    hblock⟩ := result_build_eq_ok_iff.1 hbuild
  have hscan := scanProject_of_ofLocation_eq_ok hscan
  have hclear : ∀ file ∈ files, ¬ IsExcluded settings.excludes file.path := fun file hfile =>
    not_isExcluded_of_mem_scanProject h hscan hsettings hfile
  refine ⟨files, settings, aliases, hscan, hsettings, haliases, hclear, fun entry hentry => ?_⟩
  rw [Block.ofSeeds_files hblock] at hentry
  obtain ⟨file, hfile, rfl⟩ := List.mem_map.1 hentry
  have hreached : ImportMap.reached ⟨files, .ofSettings aliases⟩ start ⊆ files :=
    ImportMap.reached_subset (seeds_subset hstart)
  have hmem := hreached hfile
  exact ⟨file, hmem, rfl, BlockFile.content_ofSource aliases file, hclear file hmem⟩

/-- The ignore file takes the drafts back in and a page imports one of them. They stay out. -/
theorem build_files_scanned_drafts :
    let page : SourceFile := ⟨"app/page.ts", "import '../drafts/idea'\nimport '../lib'\n"⟩
    let kit : List (String × Tree) :=
      [(".blockgen.yml", .file "exclude_paths: drafts/\n".toUTF8),
        (".gitignore", .file "!drafts/\n!drafts/idea.ts\n".toUTF8),
        ("app", .dir [("page.ts", .file page.content.toUTF8)]),
        ("components.json", .file "{}".toUTF8),
        ("drafts", .dir [("idea.ts", .file "x".toUTF8)]), ("lib.ts", .file "y".toUTF8),
        ("package.json", .file "{}".toUTF8)]
    let tree : Tree := .dir [("kit", .dir kit)]
    let git : Git := ⟨fun _ _ => .absent⟩
    tree.WellFormed ∧ ∃ block,
      (build git tree ⟨"/", ["kit"]⟩ { folder := some "app" } Yaml.reader).finish.1 = .ok block ∧
        block.files.map BlockFile.path = ["./app/page.ts", "./lib.ts"] ∧
        IsExcluded ["drafts/"] "drafts/idea.ts" ∧
        ∀ entry ∈ block.files, ∃ file : SourceFile, entry.content = file.content ∧
          ¬ IsExcluded ["drafts/"] file.path := by
  intro page kit tree git
  have happ : (Tree.dir [("page.ts", .file page.content.toUTF8)]).WellFormed :=
    .dir (by decide) (by decide) (by simpa using .file _)
  have hdrafts : (Tree.dir [("idea.ts", .file "x".toUTF8)]).WellFormed :=
    .dir (by decide) (by decide) (by simpa using .file _)
  have hkit : (Tree.dir kit).WellFormed := by
    apply Tree.WellFormed.dir (by decide) (by decide)
    simp only [kit, List.forall_mem_cons]
    exact ⟨.file _, .file _, happ, .file _, hdrafts, .file _, .file _, fun _ h => nomatch h⟩
  have htree : tree.WellFormed := .dir (by decide) (by decide) (by simpa [tree] using hkit)
  let rules := IgnoreRule.ofFile "!drafts/\n!drafts/idea.ts\n" ++ IgnoreRule.ofExcludes ["drafts/"]
  let files : List SourceFile :=
    [⟨".gitignore", "!drafts/\n!drafts/idea.ts\n"⟩, page, ⟨"lib.ts", "y"⟩]
  let aliases := AliasSettings.ofJson [] false
  let block := Block.ofFiles "app" aliases
    (ImportMap.reached ⟨files, .ofSettings aliases⟩ [page]) files {}
  have hsettings : Settings.load tree ⟨"/", ["kit"]⟩ Yaml.reader =
      .ok { root := ⟨["kit"]⟩, excludes := ["drafts/"] } := by decide +kernel
  have hscan : (scanProject tree ⟨"/", ["kit"]⟩ Yaml.reader).finish.1 = .ok files := by
    have hload : (IgnoreRule.load tree ⟨["kit"]⟩ Yaml.reader).finish.1 = .ok rules := by
      decide +kernel
    rw [result_scanProject, if_pos (by decide +kernel), if_pos (by decide +kernel)]
    refine (congrArg (Except.map _) hload).trans (congrArg Except.ok ?_)
    exact SourceFile.sort_eq_of_perm (by decide +kernel) (by decide +kernel)
  have hbuild : (build git tree ⟨"/", ["kit"]⟩ { folder := some "app" } Yaml.reader).finish.1 =
      .ok block := by
    have hparse : Manifest.parse "{}" = .ok {} := by decide +kernel
    refine result_build_eq_ok_iff.2 ⟨_, hsettings, files, hscan, [page], by decide +kernel, "{}",
      by decide +kernel, aliases, by decide +kernel, ?_⟩
    rw [Block.ofSeeds_eq, hparse]
    rfl
  refine ⟨htree, block, hbuild, by decide +kernel, ?_, ?_⟩
  · exact .directory "drafts" "idea.ts" (List.mem_singleton_self _) rfl (by decide)
      (by decide +kernel)
  · obtain ⟨_, settings, _, -, hload, -, -, hfiles⟩ := build_files_scanned htree hbuild
    obtain rfl := Except.ok.inj (hload.symm.trans hsettings)
    intro entry hentry
    obtain ⟨file, -, -, hcontent, hclear⟩ := hfiles entry hentry
    exact ⟨file, hcontent, hclear⟩

end Members

end RegistryBlock
