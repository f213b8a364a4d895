import RegistryBlock.Proofs.Path.Normal
import RegistryBlock.Proofs.Project.Rescan
import RegistryBlock.Proofs.Reach.Order

/-!
# Blocks of folders

A folder is named by a path seen from the project, and it counts where the path leads. Its block
begins with the scanned files below it, in the order of the scan, and goes on with what they import
from elsewhere. Without a backslash in a name the path of a scanned file is its key, so a file is
told to lie below the folder by a path that goes on behind the folder's with a slash.
-/

namespace RegistryBlock

/-! ### Names in a tree -/

namespace Tree

/-- Whether a name is kept as it is in a key: it holds no backslash and is no step of a path. -/
def IsPlainName (name : String) : Prop := '\\' ∉ name.toList ∧ name ≠ "." ∧ name ≠ ".."

instance (name : String) : Decidable (IsPlainName name) :=
  inferInstanceAs (Decidable ('\\' ∉ name.toList ∧ name ≠ "." ∧ name ≠ ".."))

mutual

def entryNames : Tree → List String
  | .file _ => []
  | .dir entries => entryNamesIn entries

def entryNamesIn : List (String × Tree) → List String
  | [] => []
  | (name, tree) :: rest => name :: (entryNames tree ++ entryNamesIn rest)

end

def HasPlainNames (tree : Tree) : Prop := ∀ name ∈ tree.entryNames, IsPlainName name

instance (tree : Tree) : Decidable tree.HasPlainNames :=
  inferInstanceAs (Decidable (∀ name ∈ tree.entryNames, IsPlainName name))

theorem mem_entryNamesIn {entries : List (String × Tree)} {name : String} {tree : Tree}
    (h : (name, tree) ∈ entries) :
    name ∈ entryNamesIn entries ∧ tree.entryNames ⊆ entryNamesIn entries := by
  induction entries with
  | nil => cases h
  | cons entry entries ih =>
    obtain ⟨first, inner⟩ := entry
    rw [entryNamesIn]
    rcases List.mem_cons.1 h with heq | h
    · obtain ⟨rfl, rfl⟩ := Prod.mk.inj heq
      exact ⟨List.mem_cons_self, List.subset_cons_of_subset _ (List.subset_append_left _ _)⟩
    · obtain ⟨hname, htree⟩ := ih h
      exact ⟨List.mem_cons_of_mem _ (List.mem_append_right _ hname),
        List.subset_cons_of_subset _ (List.subset_append_of_subset_right _ htree)⟩

theorem mem_entryNames_of_descend? {tree inner : Tree} {names : List String}
    (h : tree.descend? names = some inner) : ∀ name ∈ names, name ∈ tree.entryNames := by
  induction names generalizing tree with
  | nil => simp
  | cons name names ih =>
    rw [descend?, Option.bind_eq_some_iff] at h
    obtain ⟨next, hentry, hrest⟩ := h
    cases tree with
    | file bytes => cases hentry
    | dir entries =>
      obtain ⟨hname, hnext⟩ := mem_entryNamesIn (mem_of_lookup_eq_some hentry)
      exact List.forall_mem_cons.2 ⟨hname, fun other hother => hnext (ih hrest other hother)⟩

end Tree

/-! ### Paths of plain names -/

namespace Path

theorem segments_pathOf {names : List String} (hne : names ≠ [])
    (h : ∀ name ∈ names, Tree.IsEntryName name) :
    segments (pathOf names).toList = names.map String.toList := by
  induction names using List.reverseRecOn with
  | nil => exact absurd rfl hne
  | append_singleton names name ih =>
    rw [List.forall_mem_append, List.forall_mem_singleton] at h
    have hname : segments name.toList = [name.toList] := Text.split_of_not_mem h.2.2
    by_cases hnil : names = []
    · simpa [hnil, pathOf, String.intercalate_singleton] using hname
    · have hlist : (pathOf names ++ "/" ++ name).toList =
          (pathOf names).toList ++ '/' :: name.toList := by simp
      rw [pathOf_append_singleton hnil, hlist, segments_append_cons, ih hnil h.1, hname,
        List.map_append, List.map_singleton]

theorem eq_of_segments_eq {cs cs' : List Char} (h : segments cs = segments cs') : cs = cs' := by
  rw [← ofSegments_segments cs, h, ofSegments_segments]

theorem isName_toList {name : String} (h : Tree.IsEntryName name)
    (hplain : Tree.IsPlainName name) : IsName name.toList := by
  have hne : ∀ {other : String}, name ≠ other → name.toList ≠ other.toList := fun hne heq =>
    hne (String.toList_inj.1 heq)
  exact ⟨hne h.1, hne hplain.2.1, hne hplain.2.2⟩

/-- A path of plain names is normal. -/
theorem isNormal_pathOf {names : List String} (hne : names ≠ [])
    (h : ∀ name ∈ names, Tree.IsEntryName name) (hplain : ∀ name ∈ names, Tree.IsPlainName name) :
    IsNormal (pathOf names) := by
  have hsegments := segments_pathOf hne h
  refine ⟨fun hmem => ?_, ?_⟩
  · rw [← ofSegments_segments (pathOf names).toList, hsegments] at hmem
    obtain hslash | ⟨piece, hpiece, hmem⟩ := Text.mem_join hmem
    · exact absurd hslash (by decide)
    · obtain ⟨name, hname, rfl⟩ := List.mem_map.1 hpiece
      exact (hplain name hname).1 hmem
  · rw [hsegments, List.forall_mem_map]
    exact fun name hname => isName_toList (h name hname) (hplain name hname)

end Path

/-! ### Files below a folder -/

/-- Whether a file of the project lies below the directory with the given names: its path leads
through all of them. -/
def SourceFile.IsBelow (names : List String) (file : SourceFile) : Prop :=
  names.map String.toList <+: Path.segments file.path.toList

instance (names : List String) (file : SourceFile) : Decidable (file.IsBelow names) :=
  inferInstanceAs (Decidable (_ <+: _))

/-- The path of a file leads through some names exactly when it is the path of these names, or goes
on behind it with a slash. -/
theorem SourceFile.isBelow_iff {names : List String} {file : SourceFile} (hne : names ≠ [])
    (h : ∀ name ∈ names, Tree.IsEntryName name) : file.IsBelow names ↔ file.path = pathOf names ∨
      Text.startsWith (pathOf names ++ "/").toList file.path.toList = true := by
  have hsegments := Path.segments_pathOf hne h
  rw [Text.startsWith_iff, String.toList_append]
  constructor
  · rintro ⟨rest, hrest⟩
    by_cases hnil : rest = []
    · rw [hnil, List.append_nil, ← hsegments] at hrest
      exact .inl (String.toList_inj.1 (Path.eq_of_segments_eq hrest.symm))
    · obtain ⟨before, after, hpath, hbefore, -⟩ :=
        (Path.segments_eq_append_iff (by simpa using hne) hnil).1 hrest.symm
      obtain rfl := Path.eq_of_segments_eq (hbefore.trans hsegments.symm)
      exact .inr ⟨after, by rw [hpath, List.append_assoc]; rfl⟩
  · rintro (hpath | ⟨after, hpath⟩)
    · exact ⟨[], by rw [hpath, hsegments, List.append_nil]⟩
    · rw [IsBelow, ← hsegments, hpath, List.append_assoc]
      exact ⟨Path.segments after, (Path.segments_append_cons _ after).symm⟩

section Files

variable {tree : Tree} {project : Location} {rules : List IgnoreRule} {file : SourceFile}

theorem key_of_mem_projectFiles (h : tree.WellFormed)
    (hplain : ∀ inner ∈ tree.get? project, inner.HasPlainNames)
    (hfile : file ∈ projectFiles tree project rules) : file.key = file.path := by
  obtain ⟨above, name, bytes, hget, -, hpath, -⟩ := (mem_projectFiles h).1 hfile
  rw [Tree.get?, Tree.descend?_append, Option.bind_eq_some_iff] at hget
  obtain ⟨inner, hinner, hdescend⟩ := hget
  rw [SourceFile.key, hpath, Path.key_of_isNormal]
  refine Path.isNormal_pathOf (by simp) ((h.descend? hinner).isEntryName hdescend) ?_
  exact fun other hother => hplain inner hinner other
    (Tree.mem_entryNames_of_descend? hdescend other hother)

theorem nodup_key_projectFiles (h : tree.WellFormed)
    (hplain : ∀ inner ∈ tree.get? project, inner.HasPlainNames) :
    ((projectFiles tree project rules).map SourceFile.key).Nodup := by
  have hkeys : (projectFiles tree project rules).map SourceFile.key =
      (projectFiles tree project rules).map SourceFile.path :=
    List.map_congr_left fun file hfile => key_of_mem_projectFiles h hplain hfile
  rw [hkeys]
  exact SourceFile.nodup_path (pairwise_projectFiles h project rules)

/-- The files of a folder are those below it, in the order of the scan. -/
theorem filesIn_projectFiles (h : tree.WellFormed)
    (hplain : ∀ inner ∈ tree.get? project, inner.HasPlainNames)
    {folder : Location} (hdir : tree.isDirAt folder = true) {names : List String}
    (hfolder : folder.names = project.names ++ names) :
    filesIn names (projectFiles tree project rules) =
      (projectFiles tree project rules).filter (·.IsBelow names) := by
  unfold filesIn
  split
  · next hnil =>
    obtain rfl := List.isEmpty_iff.1 hnil
    exact (List.filter_eq_self.2 fun file _ => decide_eq_true List.nil_prefix).symm
  · next hne =>
    rw [List.isEmpty_iff] at hne
    obtain ⟨entries, hentries⟩ := Tree.look_eq_some_none_iff.1 (Tree.isDirAt_iff_look.1 hdir)
    have hnames : ∀ name ∈ names, Tree.IsEntryName name := fun name hname =>
      h.isEntryName hentries name (hfolder ▸ List.mem_append_right _ hname)
    refine List.filter_congr fun file hfile => ?_
    have hfront : Location.relativeText names = pathOf names := if_neg (by simpa using hne)
    rw [hfront, key_of_mem_projectFiles h hplain hfile, Bool.eq_iff_iff, Bool.or_eq_true,
      decide_eq_true_iff, decide_eq_true_iff, SourceFile.isBelow_iff hne hnames]

end Files

/-! ### Projects that can be read -/

/-- A project whose configuration and manifests can be read, with what they say. -/
structure Configuration (tree : Tree) (project : Location) (yaml : Yaml.Reader) where
  settings : Settings
  own : List IgnoreRule
  manifest : Manifest
  aliases : AliasSettings
  isDirAt : tree.isDirAt project = true
  load_settings : Settings.load tree (.ofLocation project) yaml = .ok settings
  load_own : IgnoreRule.fromIgnoreFile tree project = .ok own
  parse_manifest : (manifestText tree project).map Manifest.parse = .ok (.ok manifest)
  load_aliases : AliasSettings.load tree (.ofLocation project)
    (AliasSettings.hasSourceRoot tree (.ofLocation project)) = .ok aliases

namespace Configuration

variable {tree : Tree} {project : Location} {yaml : Yaml.Reader}
  (config : Configuration tree project yaml)

def files : List SourceFile :=
  projectFiles tree project (config.own ++ IgnoreRule.ofExcludes config.settings.excludes)

/-- The block that an order gets from some seeds. -/
def blockOf (order : Order) (start : List SourceFile) : Block :=
  Block.ofFiles (order.blockName config.settings (order.folderIn project)) config.aliases
    (ImportMap.reached ⟨config.files, .ofSettings config.aliases⟩ start) config.files
    config.manifest

theorem result_load : (IgnoreRule.load tree project yaml).finish.1 =
    .ok (config.own ++ IgnoreRule.ofExcludes config.settings.excludes) := by
  rw [RunM.finish_eq, IgnoreRule.load, config.load_own, IgnoreRule.fromSettings,
    config.load_settings]
  rfl

theorem result_scanProject (hup : ".." ∉ project.names) :
    (scanProject tree (.ofLocation project) yaml).finish.1 = .ok config.files :=
  (result_scanProject_eq_ok_iff hup).2 ⟨config.isDirAt, _, config.result_load, rfl⟩

theorem exists_manifestText : ∃ text, manifestText tree project = .ok text ∧
    Manifest.parse text = .ok config.manifest := by
  have hparse := config.parse_manifest
  cases htext : manifestText tree project with
  | error failure =>
    rw [htext] at hparse
    cases hparse
  | ok text =>
    rw [htext] at hparse
    exact ⟨text, rfl, Except.ok.inj hparse⟩

end Configuration

/-- A project that can be read has a block for every folder of it. -/
theorem Configuration.result_build {tree : Tree} {path : WrittenPath}
    {yaml : Yaml.Reader} (config : Configuration tree (path.resolve .root) yaml) (git : Git)
    {order : Order}
    (horder : order.altered = false) :
    (build git tree path order yaml).finish.1 =
      let project := path.resolve .root
      ((folderFiles tree project (order.folderIn project) config.files).mapError .path).map
        (config.blockOf order) := by
  have hup : ".." ∉ (path.resolve .root).names :=
    WrittenPath.up_not_mem_resolve List.not_mem_nil path
  obtain ⟨text, htext, hparse⟩ := config.exists_manifestText
  simp only [RegistryBlock.result_build, config.load_settings, config.result_scanProject hup,
    horder, htext, config.load_aliases, Block.ofSeeds_eq, result_seeds, bind, Except.bind]
  cases folderFiles tree _ _ config.files with
  | error e => rfl
  | ok start =>
    dsimp only [Except.mapError]
    rw [hparse]
    rfl

/-! ### What a block of a folder holds -/

/-- What is reached from some of the files with distinct keys begins with them, and none of them
comes again. -/
theorem ImportMap.exists_reached_filter (project : ImportMap) (p : SourceFile → Bool)
    (hkeys : (project.files.map SourceFile.key).Nodup) :
    ∃ later, project.reached (project.files.filter p) = project.files.filter p ++ later ∧
      ∀ file ∈ later, file ∈ project.files ∧ p file = false := by
  have hseeds : distinctSeeds (project.files.filter p) = project.files.filter p :=
    distinctBy_eq_self (hkeys.sublist (List.filter_sublist.map _)) (by simp)
  have hreached := project.reached_eq (project.files.filter p)
  rw [hseeds] at hreached
  refine ⟨_, hreached, fun file hfile => ?_⟩
  -- A file that is found has no key of a seed, so it cannot be one of those that are chosen.
  have hmem : file ∈ project.files :=
    reached_subset (List.filter_subset_self _) (hreached ▸ List.mem_append_right _ hfile)
  refine ⟨hmem, Bool.eq_false_iff.2 fun hp => ?_⟩
  exact project.not_mem_found_of_mem_discovered hfile
    (List.mem_map_of_mem (List.mem_filter.2 ⟨hmem, hp⟩))

theorem folderFiles_eq_error {tree : Tree} {project folder : Location}
    (h : ¬(tree.isDirAt folder = true ∧ project.names <+: folder.names))
    (files : List SourceFile) : folderFiles tree project folder files = .error
      (if tree.isDirAt folder then .folderOutside folder else .folderNoDirectory folder) := by
  unfold folderFiles
  split
  · next hdir =>
    cases hbelow : project.below? folder with
    | none => rfl
    | some names =>
      exact absurd ⟨hdir, names, (Location.below?_eq_some_iff.1 hbelow).symm⟩ h
  · rfl

/-- The block of a project that can be read begins with the scanned files below the folder, each of
them once, and everything behind them lies outside. A folder that is no directory of the project is
refused. How the folder is written plays no part. -/
theorem build_begins_with_folder {git : Git} {tree : Tree} {path : WrittenPath} {order : Order}
    {yaml : Yaml.Reader} (h : tree.WellFormed)
    (config : Configuration tree (path.resolve .root) yaml)
    (hplain : ∀ inner ∈ tree.get? (path.resolve .root), inner.HasPlainNames)
    (horder : order.altered = false) :
    let project := path.resolve .root
    let folder := order.folderIn project
    let result := (build git tree path order yaml).finish.1
    ((scanProject tree path yaml).finish.1 = .ok config.files ∧
      config.files.Pairwise fun file other => file.path < other.path) ∧
    (¬(tree.isDirAt folder = true ∧ project.names <+: folder.names) →
      let e := if tree.isDirAt folder then PathError.folderOutside folder
        else PathError.folderNoDirectory folder
      e.isMissing = false ∧ result = .error (.path e)) ∧
    (∀ names, tree.isDirAt folder = true → folder.names = project.names ++ names →
      ∃ block later, result = .ok block ∧
        block.files = (config.files.filter (·.IsBelow names) ++ later).map
          (BlockFile.ofSource config.aliases) ∧
        ∀ file ∈ later, file ∈ config.files ∧ ¬ file.IsBelow names) ∧
    ∀ other : Order, other.altered = false → other.name = order.name →
      other.folderIn project = folder → (build git tree path other yaml).finish.1 = result := by
  intro project folder result
  have hresult : result =
      ((folderFiles tree project folder config.files).mapError .path).map (config.blockOf order) :=
    config.result_build git horder
  have hup : ".." ∉ project.names := WrittenPath.up_not_mem_resolve List.not_mem_nil path
  refine ⟨⟨scanProject_of_ofLocation_eq_ok (config.result_scanProject hup),
    pairwise_projectFiles h ..⟩, fun hfolder => ?_, fun names hdir hnames => ?_,
    fun other hother hname hsame => ?_⟩
  · rw [hresult, folderFiles_eq_error hfolder]
    exact ⟨by split <;> rfl, rfl⟩
  · have hbelow := Location.below?_eq_some_iff.2 hnames
    have hfound : filesIn names config.files = config.files.filter (·.IsBelow names) :=
      filesIn_projectFiles h hplain hdir hnames
    obtain ⟨later, hreached, hlater⟩ := ImportMap.exists_reached_filter
      ⟨config.files, .ofSettings config.aliases⟩ (·.IsBelow names) (nodup_key_projectFiles h hplain)
    refine ⟨config.blockOf order (config.files.filter (·.IsBelow names)), later,
      hresult.trans ?_, congrArg (List.map (BlockFile.ofSource config.aliases)) hreached,
      fun file hfile => ?_⟩
    · rw [folderFiles_eq_ok_iff.2 ⟨hdir, names, hbelow, hfound⟩]
      rfl
    · exact ⟨(hlater file hfile).1, of_decide_eq_false (hlater file hfile).2⟩
  · -- Of how the folder is written a block could only keep its name, and that is the directory's.
    have hblock : config.blockOf other = config.blockOf order := by
      funext start
      rw [Configuration.blockOf, Order.blockName, hname, hsame]
      rfl
    rw [hresult, config.result_build git hother, hblock]
    dsimp only
    rw [hsame]

/-- The library is written in two ways, and a directory whose name goes on behind its name stays
out. The directory above the project is refused. -/
theorem build_begins_with_folder_lib :
    let lib : SourceFile := ⟨"lib/a.ts", "import '../page'\n"⟩
    let kit : List (String × Tree) :=
      [("components.json", .file "{}".toUTF8),
        ("lib-extra", .dir [("b.ts", .file "x".toUTF8)]),
        ("lib", .dir [("a.ts", .file lib.content.toUTF8)]),
        ("package.json", .file "{}".toUTF8), ("page.ts", .file "y".toUTF8)]
    let tree : Tree := .dir [("kit", .dir kit)]
    let run := fun folder =>
      (build ⟨fun _ _ => .absent⟩ tree ⟨"/", ["kit"]⟩ { folder := some folder }
        Yaml.reader).finish.1
    tree.WellFormed ∧ run ".." = .error (.path (.folderOutside ⟨[]⟩)) ∧
      ∃ block later, run "./lib//" = .ok block ∧ run "lib-extra/../lib" = .ok block ∧
        block.files.map BlockFile.path = "./lib/a.ts" :: later := by
  intro lib kit tree run
  have hlib : (Tree.dir [("a.ts", .file lib.content.toUTF8)]).WellFormed :=
    .dir (by decide) (by decide) (by simpa using .file _)
  have hextra : (Tree.dir [("b.ts", .file "x".toUTF8)]).WellFormed :=
    .dir (by decide) (by decide) (by simpa using .file _)
  have hkit : (Tree.dir kit).WellFormed := by
    apply Tree.WellFormed.dir (by decide) (by decide)
    simp only [kit, List.forall_mem_cons]
    exact ⟨.file _, hextra, hlib, .file _, .file _, fun _ h => nomatch h⟩
  have htree : tree.WellFormed := .dir (by decide) (by decide) (by simpa [tree] using hkit)
  have hplain : ∀ inner ∈ tree.get? ⟨["kit"]⟩, inner.HasPlainNames := by
    rintro _ ⟨⟩
    decide
  let config : Configuration tree ⟨["kit"]⟩ Yaml.reader :=
    { settings := { root := ⟨["kit"]⟩ }
      own := []
      manifest := {}
      aliases := .ofJson [] false
      isDirAt := by decide +kernel
      load_settings := by decide +kernel
      load_own := by decide +kernel
      parse_manifest := by decide +kernel
      load_aliases := by decide +kernel }
  have hfiles : config.files = [⟨"lib-extra/b.ts", "x"⟩, lib, ⟨"page.ts", "y"⟩] :=
    SourceFile.sort_eq_of_perm (by decide +kernel) (by decide +kernel)
  have hbegins := fun folder => @build_begins_with_folder ⟨fun _ _ => .absent⟩ tree ⟨"/", ["kit"]⟩
    { folder := some folder } Yaml.reader htree config hplain rfl
  obtain ⟨block, later, hblock, hlater, -⟩ := (hbegins "./lib//").2.2.1 ["lib"]
    (by decide +kernel) (by decide +kernel)
  have hsame := (hbegins "./lib//").2.2.2 { folder := some "lib-extra/../lib" } rfl rfl
    (by decide +kernel)
  have hfound : config.files.filter (·.IsBelow ["lib"]) = [lib] := by
    rw [hfiles]
    decide +kernel
  have hlist : block.files = (lib :: later).map (BlockFile.ofSource config.aliases) :=
    hlater.trans (congrArg (fun found => (found ++ later).map _) hfound)
  have hpath : (BlockFile.ofSource config.aliases lib).path = "./lib/a.ts" := by decide +kernel
  refine ⟨htree, ((hbegins "..").2.1 (by decide +kernel)).2, block,
    (later.map (BlockFile.ofSource config.aliases)).map BlockFile.path, hblock,
    hsame.trans hblock, ?_⟩
  rw [hlist, List.map_cons, List.map_cons, hpath]

end RegistryBlock
