import Mathlib.Data.List.Nodup
import RegistryBlock.Block.Assembly
import RegistryBlock.Proofs.Json.Spelling

/-!
# The packages of a block

A block lists those packages of the manifest that its files import, less those that stand for the
registries of its components. The manifest lists the keys of a section as the text spells them,
each at its first place.
-/

namespace RegistryBlock

/-! ### Imported packages -/

theorem Specifier.mem_packages_iff {text name : String} :
    name ∈ packages text ↔ ∃ specifier ∈ all text, package? specifier = some name := by
  rw [packages, mem_distinctBy_id, and_iff_left List.not_mem_nil, List.mem_filterMap]

theorem mem_importedPackages_iff {files : List SourceFile} {name : String} :
    name ∈ importedPackages files ↔ ∃ file ∈ files,
      ∃ specifier ∈ Specifier.all file.content, Specifier.package? specifier = some name := by
  simp only [importedPackages, mem_distinctBy_id, and_iff_left List.not_mem_nil, List.mem_flatMap,
    Specifier.mem_packages_iff]

namespace Manifest

/-- Whether some of the files import the package, and it stands for none of the registries that the
components of the project are installed from. -/
structure IsWanted (settings : AliasSettings) (members project : List SourceFile)
    (name : String) : Prop where
  imported : ∃ file ∈ members,
    ∃ specifier ∈ Specifier.all file.content, Specifier.package? specifier = some name
  notRegistry : let registries := namespaces settings (Kit.references settings project)
    registries ≠ [] → name ≠ "shadcn/ui" ∧ ∀ ns ∈ registries, name ≠ ns ∧ name ≠ ns ++ "/ui"

/-- The names of a list that satisfy `p`, in the order of the list, each once. -/
structure IsSelection (p : String → Prop) (declared chosen : List String) : Prop where
  sublist : chosen.Sublist declared
  nodup : chosen.Nodup
  mem_iff (name : String) : name ∈ chosen ↔ name ∈ declared ∧ p name

theorem isSelection_filter {p : String → Prop} {keep : String → Bool}
    (hkeep : ∀ name, keep name = true ↔ p name) {declared : List String}
    (hdeclared : declared.Nodup) : IsSelection p declared (declared.filter keep) where
  sublist := List.filter_sublist
  nodup := hdeclared.filter keep
  mem_iff name := by rw [List.mem_filter, hkeep]

theorem standsForRegistry_eq_false_iff {registries : List String} {name : String} :
    standsForRegistry registries name = false ↔
      (registries ≠ [] →
        name ≠ "shadcn/ui" ∧ ∀ ns ∈ registries, name ≠ ns ∧ name ≠ ns ++ "/ui") := by
  simp only [standsForRegistry, Bool.and_eq_false_imp, Bool.not_eq_true',
    List.isEmpty_eq_false_iff, Bool.or_eq_false_iff, decide_eq_false_iff_not, List.any_eq_false,
    Bool.or_eq_true, decide_eq_true_eq, not_or, ne_eq]
  rfl

theorem isNeeded_iff {settings : AliasSettings} {members project : List SourceFile}
    {name : String} :
    isNeeded (importedPackages members) (namespaces settings (Kit.references settings project))
      name = true ↔ IsWanted settings members project name := by
  rw [isNeeded, Bool.and_eq_true, List.contains_iff_mem, Bool.not_eq_true',
    mem_importedPackages_iff, standsForRegistry_eq_false_iff]
  exact ⟨fun h => ⟨h.1, h.2⟩, fun h => ⟨h.imported, h.notRegistry⟩⟩

/-! ### Declared packages -/

theorem parse_eq_ok_iff {text : String} {manifest : Manifest} :
    parse text = .ok manifest ↔ ∃ members, Json.parse text = .ok (.obj members) ∧
      manifest = ⟨names members "dependencies", names members "devDependencies"⟩ := by
  rw [parse]
  constructor
  · intro h
    split at h
    · cases h
    · next members hparse => exact ⟨members, hparse, (Except.ok.inj h).symm⟩
    · cases h
  · rintro ⟨members, hparse, rfl⟩
    rw [hparse]

/-- The names of a section are its keys as spelled, each at its first place. Of several sections
with the name the last one counts. -/
theorem names_merge (pairs : List (String × Json.Value)) (part : String) :
    names (Json.Value.merge [] pairs) part = distinctBy id [] (names pairs.reverse part) := by
  rw [names, names, Json.Value.lookup_merge, List.lookup_nil, Option.or_none]
  cases pairs.reverse.lookup part with
  | none => rfl
  | some v => exact v.keys_merged

/-- The spelling of an object stands for an object. -/
theorem exists_isText_obj {text : String} {members : List (String × Json.Value)}
    (h : Json.parse text = .ok (.obj members)) :
    (∃ pairs, Json.IsText text (.obj pairs)) ∧
      ∀ pairs, Json.IsText text (.obj pairs) → Json.Value.merge [] pairs = members := by
  obtain ⟨⟨raw, hraw⟩, hunique⟩ := Json.isText_of_parse h
  refine ⟨?_, fun pairs hpairs => ?_⟩
  · have hmerged := hunique raw hraw
    cases raw with
    | obj pairs => exact ⟨pairs, hraw⟩
    | _ => cases hmerged
  · exact Json.Value.obj.inj (hunique _ hpairs)

end Manifest

namespace Block

/-- The packages of a block are those of the manifest that its files import, but for those that
stand for a registry of the components. They keep the order of the manifest, and which files come
first or more than once makes no difference. The manifest has each name at the first place where
its text has it, with the replacement character where the text escapes half of a surrogate pair. -/
theorem assemble_selects {text : String} {manifest : Manifest}
    (h : Manifest.parse text = .ok manifest) (name : String) (settings : AliasSettings)
    (members project : List SourceFile) :
    ∃ block records, assemble name settings members project text = .ok (block, records) ∧
      Manifest.IsSelection (Manifest.IsWanted settings members project) manifest.dependencies
        block.dependencies ∧
      Manifest.IsSelection (Manifest.IsWanted settings members project) manifest.devDependencies
        block.devDependencies ∧
      (∀ others, (∀ file, file ∈ others ↔ file ∈ members) →
        ∃ other records, assemble name settings others project text = .ok (other, records) ∧
          other.dependencies = block.dependencies ∧
          other.devDependencies = block.devDependencies) ∧
      (∃ pairs, Json.IsText text (.obj pairs)) ∧
      ∀ pairs, Json.IsText text (.obj pairs) →
        manifest.dependencies = distinctBy id [] (Manifest.names pairs.reverse "dependencies") ∧
        manifest.devDependencies =
          distinctBy id [] (Manifest.names pairs.reverse "devDependencies") := by
  obtain ⟨sections, hparse, rfl⟩ := Manifest.parse_eq_ok_iff.1 h
  obtain ⟨⟨pairs, hpairs⟩, hmerge⟩ := Manifest.exists_isText_obj hparse
  have hnodup (part : String) : (Manifest.names sections part).Nodup := by
    rw [← hmerge pairs hpairs, Manifest.names_merge]
    exact nodup_distinctBy_id ..
  refine ⟨_, _, by rw [assemble, h], ?_, ?_, fun others hothers => ?_, ⟨pairs, hpairs⟩, ?_⟩
  · exact Manifest.isSelection_filter (fun _ => Manifest.isNeeded_iff) (hnodup _)
  · exact Manifest.isSelection_filter (fun _ => Manifest.isNeeded_iff) (hnodup _)
  · have himported (package : String) :
        package ∈ importedPackages others ↔ package ∈ importedPackages members := by
      simp only [mem_importedPackages_iff, hothers]
    have hkeep : Manifest.isNeeded (importedPackages others) =
        Manifest.isNeeded (importedPackages members) := by
      funext registries package
      simp only [Manifest.isNeeded, List.contains_eq_mem, himported]
    refine ⟨_, _, by rw [assemble, h], ?_, ?_⟩ <;>
      simp only [ofFiles, Manifest.needed, hkeep]
  · intro pairs hpairs
    rw [← hmerge pairs hpairs]
    exact ⟨Manifest.names_merge .., Manifest.names_merge ..⟩

theorem assemble_selects_clsx :
    let text := "\x7b\"dependencies\": \x7b\"zod\": \"3\", \"clsx\": \"1\", \"react\": \"18\", " ++
      "\"clsx\": \"2\", \"zod\": \"4\"\x7d\x7d"
    let members : List SourceFile := [⟨"a.ts", "import 'clsx'"⟩, ⟨"b.ts", "import 'zod/mini'"⟩]
    Manifest.parse text = .ok ⟨["zod", "clsx", "react"], []⟩ ∧
      ∃ block records, assemble "demo" {} members members text = .ok (block, records) ∧
        block.dependencies = ["zod", "clsx"] ∧ block.devDependencies = [] ∧
        ∃ other records, assemble "demo" {} members.reverse members text = .ok (other, records) ∧
          other.dependencies = ["zod", "clsx"] := by
  intro text members
  have hparse : Manifest.parse text = .ok ⟨["zod", "clsx", "react"], []⟩ := by decide +kernel
  obtain ⟨block, records, hblock, -, hdev, hothers, -⟩ :=
    assemble_selects hparse "demo" {} members members
  have hdependencies : block.dependencies = ["zod", "clsx"] := by
    rw [assemble, hparse] at hblock
    obtain rfl := congrArg Prod.fst (Except.ok.inj hblock)
    decide +kernel
  obtain ⟨other, more, hother, hsame, -⟩ := hothers members.reverse fun _ => List.mem_reverse
  refine ⟨hparse, block, records, hblock, hdependencies, ?_, other, more, hother, ?_⟩
  · exact List.sublist_nil.1 hdev.sublist
  · rw [hsame, hdependencies]

end Block

end RegistryBlock
