import Mathlib.Data.List.Forall2
import RegistryBlock.Block.Assembly
import RegistryBlock.Proofs.Layout.Files

/-!
# Blocks below the source root

A project and the same project moved below `src/` have the same block, but for the targets of style
sheets. References to stock components, packages and roles do not see the source root: each of them
reads a path only behind it.
-/

namespace RegistryBlock

/-! ### Stock components -/

theorem baseName_append_cons (front rest : List Char) :
    Path.baseName (front ++ '/' :: rest) = Path.baseName rest := by
  simp only [Path.baseName, Text.cutAtLast, List.reverse_append, List.reverse_cons,
    List.append_assoc, List.takeWhile_append]
  split
  · next h =>
    have hall := (List.takeWhile_prefix (l := rest.reverse) (· != '/')).eq_of_length h
    rw [hall]
    simp
  · rfl

theorem startsWith_append_append (front cs rest : List Char) :
    Text.startsWith (front ++ cs) (front ++ rest) = Text.startsWith cs rest := by
  rw [Bool.eq_iff_iff, Text.startsWith_iff, Text.startsWith_iff]
  simp

namespace Kit

variable {settings : AliasSettings}

theorem directory?_withSourceRoot (hflat : settings.sourceRoot = false) :
    directory? settings.withSourceRoot =
      (directory? settings).map fun directory => sourceDir ++ '/' :: directory := by
  unfold directory?
  cases hui : settings.ui with
  | none => simp [AliasSettings.withSourceRoot, hui]
  | some value =>
    simp [AliasSettings.withSourceRoot, hui, AliasSettings.rootFront, hflat, sourceDir,
      Function.comp_def]

theorem componentName?_belowSource (path : String) :
    componentName? (belowSource path).toList = componentName? path.toList := by
  rw [toList_belowSource, componentName?, componentName?, Path.stem, Path.stem, Path.extension,
    Path.extension, baseName_append_cons]

theorem component?_eq_ite {directory : List Char} (h : directory? settings = some directory)
    (hne : directory ≠ []) (path : String) :
    component? settings path =
      if Text.startsWith (directory ++ ['/']) (Path.key path).toList then
        componentName? (Path.key path).toList
      else none := by
  unfold component?
  rw [h]
  cases directory with
  | nil => exact absurd rfl hne
  | cons c cs => rfl

theorem component?_belowSource (hflat : settings.sourceRoot = false) {key : String}
    (hkey : Path.IsNormal key) :
    component? settings.withSourceRoot (belowSource key) = component? settings key := by
  have hmoved := directory?_withSourceRoot hflat
  cases hdirectory : directory? settings with
  | none =>
    rw [hdirectory] at hmoved
    unfold component?
    rw [hdirectory, hmoved, Option.map_none]
  | some directory =>
    rw [hdirectory, Option.map_some] at hmoved
    have hfront : Text.startsWith (sourceDir ++ '/' :: directory ++ ['/'])
        (belowSource key).toList =
      Text.startsWith (directory ++ ['/']) key.toList := by
      simpa [toList_belowSource] using
        startsWith_append_append (sourceDir ++ ['/']) (directory ++ ['/']) key.toList
    rw [component?_eq_ite hmoved (by simp), Path.key_of_isNormal (isNormal_belowSource hkey),
      hfront, componentName?_belowSource]
    by_cases hne : directory = []
    · -- A bare `@/` is no directory in the flat layout, and one without files below `src/`.
      have hnone : ¬ Text.startsWith ['/'] key.toList = true := by
        rw [Text.startsWith_iff]
        rintro ⟨rest, hrest⟩
        exact hkey.isRelative (by rw [hrest]; rfl)
      unfold component?
      rw [hdirectory, hne, List.nil_append, if_neg hnone]
    · rw [component?_eq_ite hdirectory hne, Path.key_of_isNormal hkey]

theorem references_inSource {files : List SourceFile} (h : IsFlat settings files) :
    references settings.withSourceRoot (files.map SourceFile.inSource) =
      references settings files := by
  have hcomponents : (files.map SourceFile.inSource).filterMap
      (fun file => component? settings.withSourceRoot file.key) =
        files.filterMap fun file => component? settings file.key := by
    rw [List.filterMap_map]
    apply List.filterMap_congr
    intro file hfile
    rw [Function.comp_apply, h.key_inSource hfile,
      component?_belowSource h.sourceRoot_eq (h.isNormal file hfile)]
  rw [references, references, hcomponents]
  rfl

end Kit

/-! ### Entries -/

/-- Whether two entries differ at most in the target of a style sheet. -/
structure BlockFile.AgreesWith (entry other : BlockFile) : Prop where
  path_eq : entry.path = other.path
  content_eq : entry.content = other.content
  type_eq : entry.type = other.type
  target_eq : entry.type ≠ "registry:style" → entry.target = other.target

/-- Only the target of a style sheet depends on where it comes from. -/
theorem Placement.ofKey_agrees (settings : AliasSettings) (key : String) (first second : Bool) :
    (ofKey settings key first).role = (ofKey settings key second).role ∧
      ((ofKey settings key first).role ≠ .style →
        (ofKey settings key first).target = (ofKey settings key second).target) := by
  cases hrole : aliasRole? settings key.toList with
  | some role =>
    simp [ofKey, hrole]
  | none =>
    simp only [ofKey, hrole]
    split_ifs with hpage htheme hstyle
    all_goals first
      | exact ⟨rfl, fun _ => rfl⟩
      | exact ⟨rfl, fun h => absurd rfl h⟩

theorem BlockFile.ofKey_agreesWith (settings : AliasSettings) (key content : String)
    (first second : Bool) :
    (ofKey settings key content first).AgreesWith (ofKey settings key content second) := by
  obtain ⟨hrole, htarget⟩ := Placement.ofKey_agrees settings key first second
  refine ⟨rfl, rfl, congrArg Role.label hrole, fun htype => htarget fun hstyle => htype ?_⟩
  exact congrArg Role.label hstyle

theorem BlockFile.ofSource_inSource {settings : AliasSettings} {files : List SourceFile}
    (h : IsFlat settings files) {file : SourceFile} (hfile : file ∈ files) :
    (ofSource settings file).AgreesWith
      (ofSource settings.withSourceRoot file.inSource) := by
  have hdrop : Text.dropFront? "src/".toList file.inSource.key.toList = some file.key.toList := by
    rw [Text.dropFront?_eq_some_iff, h.key_inSource hfile, toList_belowSource]
    rfl
  have hmoved : ofSource settings.withSourceRoot file.inSource =
      ofKey settings (Path.key file.key) file.content true := by
    rw [ofSource, if_pos (show settings.withSourceRoot.sourceRoot = true from rfl), hdrop]
    simp only [String.ofList_toList]
    rfl
  have hflat : ∃ first, ofSource settings file =
      ofKey settings (Path.key file.key) file.content first := by
    rw [ofSource, if_neg (by simp [h.sourceRoot_eq])]
    exact ⟨_, rfl⟩
  obtain ⟨first, hflat⟩ := hflat
  rw [hmoved, hflat]
  exact ofKey_agreesWith settings _ _ first true

/-! ### Blocks -/

structure Block.AgreesWith (block other : Block) : Prop where
  name_eq : block.name = other.name
  dependencies_eq : block.dependencies = other.dependencies
  devDependencies_eq : block.devDependencies = other.devDependencies
  registryDependencies_eq : block.registryDependencies = other.registryDependencies
  files_agree : List.Forall₂ BlockFile.AgreesWith block.files other.files

/-- The block of some seeds and of everything that they reach in a project. -/
def Block.ofSeeds (name : String) (settings : AliasSettings) (seeds files : List SourceFile)
    (manifestText : String) : Except Manifest.Error Block :=
  (Block.assemble name settings (ImportMap.reached ⟨files, .ofSettings settings⟩ seeds) files
    manifestText).map Prod.fst

/-- Whether two attempts at a block fail alike or succeed with blocks that agree. -/
inductive Block.SameOutcome : Except Manifest.Error Block → Except Manifest.Error Block → Prop where
  | error (e : Manifest.Error) : SameOutcome (.error e) (.error e)
  | ok {block other : Block} (h : block.AgreesWith other) : SameOutcome (.ok block) (.ok other)

theorem importedPackages_inSource (files : List SourceFile) :
    importedPackages (files.map SourceFile.inSource) = importedPackages files := by
  rw [importedPackages, importedPackages, List.flatMap_map]
  rfl

theorem Block.ofFiles_inSource {settings : AliasSettings} {files members : List SourceFile}
    (h : IsFlat settings files) (hmembers : members ⊆ files) (name : String)
    (manifest : Manifest) :
    (Block.ofFiles name settings members files manifest).AgreesWith
      (Block.ofFiles name settings.withSourceRoot (members.map SourceFile.inSource)
        (files.map SourceFile.inSource) manifest) := by
  have hneeded : manifest.needed settings.withSourceRoot
      (importedPackages (members.map SourceFile.inSource))
      (Kit.references settings.withSourceRoot (files.map SourceFile.inSource)) =
        manifest.needed settings (importedPackages members) (Kit.references settings files) := by
    rw [importedPackages_inSource, Kit.references_inSource h]
    rfl
  refine ⟨rfl, ?_, ?_, (Kit.references_inSource h).symm, ?_⟩
  · exact congrArg Manifest.dependencies hneeded.symm
  · exact congrArg Manifest.devDependencies hneeded.symm
  · change List.Forall₂ _ (members.map _) ((members.map SourceFile.inSource).map _)
    rw [List.forall₂_map_left_iff, List.forall₂_map_right_iff, List.forall₂_map_right_iff,
      List.forall₂_same]
    exact fun file hfile => BlockFile.ofSource_inSource h (hmembers hfile)

theorem Block.ofSeeds_eq (name : String) (settings : AliasSettings)
    (seeds files : List SourceFile) (manifestText : String) :
    Block.ofSeeds name settings seeds files manifestText =
      (Manifest.parse manifestText).map (Block.ofFiles name settings
        (ImportMap.reached ⟨files, .ofSettings settings⟩ seeds) files) := by
  rw [ofSeeds, assemble]
  cases Manifest.parse manifestText <;> rfl

theorem ImportMap.reached_subset {project : ImportMap} {seeds : List SourceFile}
    (hseeds : seeds ⊆ project.files) : project.reached seeds ⊆ project.files := by
  intro file hfile
  rw [reached_eq, List.mem_append] at hfile
  rcases hfile with hfile | hfile
  · exact hseeds ((distinctBy_sublist _ _ _).mem hfile)
  · exact SourceFile.mem_of_find?_eq_some (project.find?_key_of_mem_discovered hfile)

/-- A project may keep its sources below `src/` or not: as long as no specifier leaves the project,
moving all its files there and setting the source root gives the same failure or a block that
differs at most in the targets of style sheets. -/
theorem Block.ofSeeds_inSource {settings : AliasSettings} {files seeds : List SourceFile}
    (h : IsFlat settings files) (hseeds : seeds ⊆ files) (name manifestText : String) :
    Block.SameOutcome (Block.ofSeeds name settings seeds files manifestText)
      (Block.ofSeeds name settings.withSourceRoot (seeds.map SourceFile.inSource)
        (files.map SourceFile.inSource) manifestText) := by
  rw [ofSeeds_eq, ofSeeds_eq, h.reached_inSource hseeds]
  cases Manifest.parse manifestText with
  | error e => exact .error e
  | ok manifest => exact .ok (ofFiles_inSource h (ImportMap.reached_subset hseeds) name manifest)

theorem Block.ofSeeds_inSource_page :
    let settings : AliasSettings := { ui := some "@/components/ui/" }
    let page : SourceFile := ⟨"app/page.tsx", "import { B } from '@/components/ui/button'"⟩
    let files : List SourceFile :=
      [⟨"app/base.css", ""⟩, page, ⟨"components\\ui\\button.tsx", "import './../../lib'"⟩,
        ⟨"lib/index.ts", ""⟩]
    IsFlat settings files ∧ [page] ⊆ files ∧
      Block.SameOutcome (Block.ofSeeds "page" settings [page] files "{}")
        (Block.ofSeeds "page" settings.withSourceRoot ([page].map SourceFile.inSource)
          (files.map SourceFile.inSource) "{}") := by
  intro settings page files
  have htable : AliasTable.ofSettings settings =
      ⟨[⟨"@/components/ui", "components/ui"⟩, ⟨"@", ""⟩], ""⟩ := by
    rw [AliasTable.ofSettings, AliasTable.sort, List.mergeSort_of_pairwise] <;> decide +kernel
  have hflat : IsFlat settings files := by
    refine ⟨rfl, ?_, ?_, ?_⟩
    · decide +kernel
    · decide +kernel
    · rw [htable]
      decide +kernel
  have hseeds : [page] ⊆ files := by simp [files]
  exact ⟨hflat, hseeds, ofSeeds_inSource hflat hseeds "page" "{}"⟩

/-- A path that begins with `./` has the key of the path without it, but below `src/` the `./` is
no longer at the front: the file is not found where the alias of the stock components points. -/
theorem Block.not_sameOutcome_of_leading_here :
    ¬ ∀ (settings : AliasSettings) (files seeds : List SourceFile) (name manifestText : String),
      settings.sourceRoot = false → (files.map SourceFile.key).Nodup →
      (∀ file ∈ files, Path.IsNormal file.key) →
      (∀ file ∈ files, ∀ specifier ∈ Specifier.locals file.content,
        Path.StaysInside (Specifier.candidate (.ofSettings settings) file.key specifier)) →
      seeds ⊆ files →
      Block.SameOutcome (Block.ofSeeds name settings seeds files manifestText)
        (Block.ofSeeds name settings.withSourceRoot (seeds.map SourceFile.inSource)
          (files.map SourceFile.inSource) manifestText) := by
  intro hall
  have hsame := hall { ui := some "@/components/ui" } [⟨"./components/ui/button.tsx", ""⟩] [] "kit"
    "{}" rfl (by decide) (by decide) (by decide +kernel) (by simp)
  have hparse : Manifest.parse "{}" = .ok {} := rfl
  rw [ofSeeds_eq, ofSeeds_eq, hparse] at hsame
  cases hsame with
  | ok hagree =>
    have hreferences := hagree.registryDependencies_eq
    revert hreferences
    decide

end RegistryBlock
