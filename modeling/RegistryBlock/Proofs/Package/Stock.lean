import RegistryBlock.Proofs.Layout.Block
import RegistryBlock.Proofs.Layout.Directory
import RegistryBlock.Proofs.Package.Namespace
import RegistryBlock.Proofs.Path.LastName

/-!
# References and roles

A file stands for a stock component if it has the type of the `ui` alias, is not the directory of
the alias itself, and has the name of the component with the extension of a component. The
references of a project are those to the components that its files stand for, in the order of the
first files that stand for them. The directory is computed once for the roles and once more for the
references, and the two agree for files among the sources.
-/

namespace RegistryBlock

theorem findIdx_congr {α : Type} {p q : α → Bool} {l : List α} (h : ∀ a ∈ l, p a = q a) :
    l.findIdx p = l.findIdx q := by
  induction l with
  | nil => rfl
  | cons a l ih =>
    rw [List.findIdx_cons, List.findIdx_cons, h a List.mem_cons_self,
      ih fun b hb => h b (List.mem_cons_of_mem _ hb)]

namespace Kit

variable {settings : AliasSettings} {file : SourceFile} {component path : String}

/-! ### Names -/

/-- Whether the base name of a path is that of a component with the extension of a component. -/
def BearsName (path component : String) : Prop :=
  ∃ extension ∈ [".tsx", ".jsx"],
    String.ofList (Path.baseName path.toList) = component ++ extension

instance (path component : String) : Decidable (BearsName path component) :=
  inferInstanceAs (Decidable (∃ extension ∈ [".tsx", ".jsx"],
    String.ofList (Path.baseName path.toList) = component ++ extension))

theorem dot_not_mem_of_mem_components (h : component ∈ components) :
    component.toList ≠ [] ∧ '.' ∉ component.toList := by
  revert component
  decide +kernel

theorem componentName?_eq_some_iff :
    componentName? path.toList = some component ↔
      component ∈ components ∧ BearsName path component := by
  have hsplit := Path.splitExtension_append (Path.baseName path.toList)
  simp only [componentName?, Option.ite_none_right_eq_some, Option.some.injEq]
  constructor
  · rintro ⟨⟨hext, hname⟩, rfl⟩
    refine ⟨hname, _, hext, ?_⟩
    rw [← String.ofList_append, Path.stem, Path.extension, hsplit]
  · rintro ⟨hmem, extension, hext, hbase⟩
    have hdots : ∀ extension ∈ [".tsx", ".jsx"],
        extension.toList = '.' :: extension.toList.tail ∧ '.' ∉ extension.toList.tail := by decide
    obtain ⟨hdot, hrest⟩ := hdots extension hext
    obtain ⟨hne, hname⟩ := dot_not_mem_of_mem_components hmem
    have hlist : Path.baseName path.toList = component.toList ++ '.' :: extension.toList.tail := by
      rw [← hdot, ← String.toList_append, ← hbase, String.toList_ofList]
    obtain ⟨c, hc⟩ := List.exists_mem_of_ne_nil _ hne
    have hcut := Path.splitExtension_append_cons ⟨c, hc, fun he => hname (he ▸ hc)⟩ hrest
    have hstem : String.ofList (Path.stem path.toList) = component := by
      rw [Path.stem, hlist, hcut, String.ofList_toList]
    have hextension : String.ofList (Path.extension path.toList) = extension := by
      rw [Path.extension, hlist, hcut, ← hdot, String.ofList_toList]
    rw [hstem, hextension]
    exact ⟨⟨hext, hmem⟩, rfl⟩

/-! ### The directory of the alias -/

/-- Whether a path lies below the directory that the table gives to the `ui` alias. -/
def LiesBelow (settings : AliasSettings) (path : String) : Prop :=
  ∃ entry, AliasTable.entry? settings .ui = some entry ∧
    ∃ rest, path = entry.directory ++ "/" ++ rest

theorem directory?_eq_some_iff {directory : List Char} :
    directory? settings = some directory ↔
      ∃ value rest, settings.ui = some value ∧ value.toList = "@/".toList ++ rest ∧
        settings.rootFront.toList ++ Text.trimBy isSlash rest = directory := by
  simp only [directory?, Option.bind_eq_some_iff, Option.map_eq_some_iff,
    Text.dropFront?_eq_some_iff]
  constructor
  · rintro ⟨value, hvalue, rest, hrest, htrim⟩
    exact ⟨value, rest, hvalue, hrest, htrim⟩
  · rintro ⟨value, rest, hvalue, hrest, htrim⟩
    exact ⟨value, hvalue, rest, hrest, htrim⟩

/-- A normal path lies below the directory of the table if and only if it goes on behind the
directory that references are looked for in. -/
theorem liesBelow_iff (h : Path.IsNormal path) :
    LiesBelow settings path ↔ ∃ directory, directory? settings = some directory ∧
      directory ≠ [] ∧ Text.startsWith (directory ++ ['/']) path.toList = true := by
  constructor
  · rintro ⟨entry, hentry, tail, rfl⟩
    obtain ⟨value, hvalue, halias⟩ := Option.bind_eq_some_iff.1 hentry
    obtain ⟨inner, hinner, rfl⟩ := Option.map_eq_some_iff.1 halias
    obtain ⟨hne, rest, hrest, rfl⟩ := aliasPath?_eq_some_iff.1 hinner
    refine ⟨_, directory?_eq_some_iff.2 ⟨value, rest, hvalue, hrest, rfl⟩,
      List.append_ne_nil_of_right_ne_nil _ hne, Text.startsWith_iff.2 ⟨tail.toList, by simp⟩⟩
  · rintro ⟨directory, hdirectory, hne, hstarts⟩
    obtain ⟨value, rest, hvalue, hrest, rfl⟩ := directory?_eq_some_iff.1 hdirectory
    obtain ⟨tail, htail⟩ := Text.startsWith_iff.1 hstarts
    by_cases htrim : Text.trimBy isSlash rest = []
    · -- An alias for the sources themselves would need an empty name behind `src/`.
      have hempty : [] ∈ Path.segments path.toList := by
        rw [htail, htrim, List.append_nil, List.append_assoc, List.singleton_append,
          Path.segments_append_cons]
        rw [htrim, List.append_nil] at hne
        refine List.mem_append_left _ ?_
        by_cases hroot : settings.sourceRoot = true
        · rw [AliasSettings.rootFront, if_pos hroot]
          decide
        · simp [AliasSettings.rootFront, hroot] at hne
      exact absurd rfl (h.2 [] hempty).1
    · have halias := aliasPath?_eq_some_iff.2 ⟨htrim, rest, hrest, rfl⟩
      refine ⟨_, Option.bind_eq_some_iff.2 ⟨value, hvalue,
        Option.map_eq_some_iff.2 ⟨_, halias, rfl⟩⟩, String.ofList tail, ?_⟩
      rw [← String.toList_inj, htail]
      simp

theorem component?_eq_some_iff (h : Path.IsNormal path) :
    component? settings path = some component ↔
      LiesBelow settings path ∧ component ∈ components ∧ BearsName path component := by
  rw [liesBelow_iff h, ← componentName?_eq_some_iff]
  constructor
  · intro hcomponent
    unfold component? at hcomponent
    rw [Path.key_of_isNormal h] at hcomponent
    split at hcomponent
    · cases hcomponent
    · cases hcomponent
    · next directory hne hdirectory =>
      obtain ⟨hstarts, hname⟩ := Option.ite_none_right_eq_some.1 hcomponent
      exact ⟨⟨directory, hdirectory, hne, hstarts⟩, hname⟩
  · rintro ⟨⟨directory, hdirectory, hne, hstarts⟩, hname⟩
    rw [component?_eq_ite hdirectory hne, Path.key_of_isNormal h, if_pos hstarts, hname]

/-! ### Files -/

/-- Whether a file has the type of the `ui` alias, is not the directory of the alias, and bears the
name of a component. -/
structure StandsFor (settings : AliasSettings) (file : SourceFile) (component : String) : Prop where
  type_eq : (BlockFile.ofSource settings file).type = Role.ui.label
  key_ne : (AliasTable.entry? settings .ui).map AliasEntry.directory ≠ some file.key
  bearsName : BearsName file.key component

theorem standsFor_iff : StandsFor settings file component ↔
    (BlockFile.ofSource settings file).type = Role.ui.label ∧
      (AliasTable.entry? settings .ui).map AliasEntry.directory ≠ some file.key ∧
      BearsName file.key component :=
  ⟨fun h => ⟨h.type_eq, h.key_ne, h.bearsName⟩, fun h => ⟨h.1, h.2.1, h.2.2⟩⟩

instance (settings : AliasSettings) (file : SourceFile) (component : String) :
    Decidable (StandsFor settings file component) :=
  decidable_of_iff _ standsFor_iff.symm

/-- Whether a file stands for the component that a reference is to. -/
def RefersTo (settings : AliasSettings) (file : SourceFile) (name : String) : Prop :=
  ∃ component ∈ components, StandsFor settings file component ∧ reference settings component = name

instance (settings : AliasSettings) (file : SourceFile) (name : String) :
    Decidable (RefersTo settings file name) :=
  inferInstanceAs (Decidable (∃ component ∈ components,
    StandsFor settings file component ∧ reference settings component = name))

/-- A file lies below the directory of the alias if it has the type of the alias and is not the
directory. -/
theorem liesBelow_key_iff (hnormal : Path.IsNormal file.key) (hinside : ¬ file.IsOutside settings) :
    LiesBelow settings file.key ↔ (BlockFile.ofSource settings file).type = Role.ui.label ∧
      (AliasTable.entry? settings .ui).map AliasEntry.directory ≠ some file.key := by
  have hplace := (SourceFile.rootFront_append_place settings file).resolve_right
    fun h => hinside h.1
  rw [SourceFile.type_ofSource_eq_iff hnormal (by decide : (Slot.ui, Role.ui) ∈ _), hplace.2]
  constructor
  · rintro ⟨entry, hentry, rest, hkey⟩
    refine ⟨⟨[], _, rfl, ⟨entry, hentry, .inr ⟨rest, hkey⟩⟩, by simp⟩, ?_⟩
    rw [hentry, Option.map_some, Ne, Option.some.injEq, hkey]
    intro he
    have hlength := congrArg String.length he
    simp only [String.length_append, show "/".length = 1 from rfl] at hlength
    omega
  · rintro ⟨⟨-, -, -, ⟨entry, hentry, hin⟩, -⟩, hne⟩
    rw [hentry, Option.map_some, Ne, Option.some.injEq] at hne
    exact ⟨entry, hentry, hin.resolve_left fun he => hne he.symm⟩

theorem component?_key_eq_some_iff (hnormal : Path.IsNormal file.key)
    (hinside : ¬ file.IsOutside settings) :
    component? settings file.key = some component ↔
      component ∈ components ∧ StandsFor settings file component := by
  rw [component?_eq_some_iff hnormal, liesBelow_key_iff hnormal hinside, standsFor_iff]
  tauto

theorem reference_injective (settings : AliasSettings) :
    Function.Injective (reference settings) := by
  intro component other h
  by_cases hbare : ∀ ns, namespace? settings = some ns → ns = ""
  · rwa [reference_of_bare hbare, reference_of_bare hbare] at h
  · obtain ⟨ns, hns, hne⟩ : ∃ ns, namespace? settings = some ns ∧ ns ≠ "" := by
      simpa using hbare
    rw [reference_of_namespace? hns hne, reference_of_namespace? hns hne] at h
    simpa [← String.toList_inj] using h

theorem references_eq (settings : AliasSettings) (files : List SourceFile) :
    references settings files = distinctBy id [] (files.filterMap fun file =>
      (component? settings file.key).map (reference settings)) := by
  rw [references, List.map_filterMap]

theorem map_component?_eq_some_iff (hnormal : Path.IsNormal file.key)
    (hinside : ¬ file.IsOutside settings) {name : String} :
    (component? settings file.key).map (reference settings) = some name ↔
      RefersTo settings file name := by
  simp only [Option.map_eq_some_iff, component?_key_eq_some_iff hnormal hinside, RefersTo,
    and_assoc]

variable {files : List SourceFile}

theorem mem_references_iff (hnormal : ∀ file ∈ files, Path.IsNormal file.key)
    (hinside : ∀ file ∈ files, ¬ file.IsOutside settings) {name : String} :
    name ∈ references settings files ↔ ∃ file ∈ files, RefersTo settings file name := by
  rw [references_eq, mem_distinctBy_id, and_iff_left List.not_mem_nil, List.mem_filterMap]
  refine exists_congr fun file => and_congr_right fun hfile => ?_
  exact map_component?_eq_some_iff (hnormal file hfile) (hinside file hfile)

/-- References stand in the order of the first files that they come from. -/
theorem pairwise_references (hnormal : ∀ file ∈ files, Path.IsNormal file.key)
    (hinside : ∀ file ∈ files, ¬ file.IsOutside settings) :
    (references settings files).Pairwise fun name other =>
      files.findIdx (RefersTo settings · name) < files.findIdx (RefersTo settings · other) := by
  have hplace : ∀ name, (files.findIdx fun file =>
      (component? settings file.key).map (reference settings) = some name) =
        files.findIdx (RefersTo settings · name) := fun name =>
    findIdx_congr fun file hfile => decide_eq_decide.2
      (map_component?_eq_some_iff (hnormal file hfile) (hinside file hfile))
  have horder := pairwise_findIdx_distinctBy
    (fun file : SourceFile => (component? settings file.key).map (reference settings)) [] files
  simp only [hplace] at horder
  rw [← references_eq] at horder
  exact horder

end Kit

/-- The references of a project are those to the stock components that its files stand for, each
once and in the order of the first files that stand for them, provided that the files lie among the
sources. -/
theorem references_agree_with_roles (settings : AliasSettings) {files : List SourceFile}
    (hnormal : ∀ file ∈ files, Path.IsNormal file.key)
    (hinside : ∀ file ∈ files, ¬ file.IsOutside settings) :
    let names := Kit.references settings files
    (∀ component ∈ Kit.components, Kit.reference settings component ∈ names ↔
      ∃ file ∈ files, Kit.StandsFor settings file component) ∧
    (∀ name ∈ names, ∃ component ∈ Kit.components, name = Kit.reference settings component) ∧
    names.Nodup ∧
    names.Pairwise fun name other => files.findIdx (Kit.RefersTo settings · name) <
      files.findIdx (Kit.RefersTo settings · other) := by
  intro names
  refine ⟨fun component hcomponent => ?_, fun name => Kit.exists_of_mem_references,
    nodup_distinctBy_id .., Kit.pairwise_references hnormal hinside⟩
  rw [Kit.mem_references_iff hnormal hinside]
  refine exists_congr fun file => and_congr_right fun _ => ⟨?_, fun h => ⟨_, hcomponent, h, rfl⟩⟩
  rintro ⟨other, -, hstands, heq⟩
  exact Kit.reference_injective settings heq ▸ hstands

theorem references_agree_with_roles_acme :
    let settings : AliasSettings := { ui := "@/ui/", sourceRoot := true, registries := ["@acme"] }
    let card : SourceFile := ⟨"src/ui/forms/card.jsx", ""⟩
    let button : SourceFile := ⟨"./src/ui/button.tsx", ""⟩
    let files : List SourceFile := [⟨"src/ui/fancy.tsx", ""⟩, card, ⟨"src/table.tsx", ""⟩, button,
      ⟨"src/ui/card.tsx", ""⟩]
    (∀ file ∈ files, Path.IsNormal file.key) ∧ (∀ file ∈ files, ¬ file.IsOutside settings) ∧
      Kit.references settings files = ["@acme/card", "@acme/button"] ∧
      (∃ file ∈ files, Kit.StandsFor settings file "button") ∧
      (¬ ∃ file ∈ files, Kit.StandsFor settings file "table") ∧
      files.findIdx (Kit.RefersTo settings · "@acme/card") <
        files.findIdx (Kit.RefersTo settings · "@acme/button") := by
  intro settings card button files
  have hnormal : ∀ file ∈ files, Path.IsNormal file.key := by decide +kernel
  have hsource : ∀ file ∈ files, file.key = belowSource (withoutSource file.key) := by
    decide +kernel
  have hinside : ∀ file ∈ files, ¬ file.IsOutside settings := fun file hfile houtside =>
    houtside.2 _ (hsource file hfile)
  obtain ⟨hmem, -, -, horder⟩ := references_agree_with_roles settings hnormal hinside
  have hnames : Kit.references settings files = ["@acme/card", "@acme/button"] := by
    decide +kernel
  rw [hnames] at hmem horder
  have hkit : "button" ∈ Kit.components ∧ "table" ∈ Kit.components := by decide
  have hwritten : Kit.reference settings "button" = "@acme/button" ∧
      Kit.reference settings "table" = "@acme/table" := by decide
  refine ⟨hnormal, hinside, hnames, (hmem "button" hkit.1).1 ?_, fun h => ?_, ?_⟩
  · rw [hwritten.1]
    decide
  · have htable := (hmem "table" hkit.2).2 h
    rw [hwritten.2] at htable
    exact absurd htable (by decide)
  · exact (List.pairwise_cons.1 horder).1 "@acme/button" List.mem_cons_self

end RegistryBlock
