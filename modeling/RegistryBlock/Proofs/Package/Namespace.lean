import RegistryBlock.Proofs.Package.Needed
import RegistryBlock.Proofs.Text.Split

/-!
# Namespaces of references

A reference is written as the namespace of the project, a slash and a component, and its namespace
is read back as its first segment. The two agree for a namespace that is one segment. Of a namespace
with a slash only the front is read, which counts if it names a registry itself; an empty namespace
is not written at all, and a component may then pass for a registry of its name.
-/

namespace RegistryBlock

namespace Kit

variable {settings : AliasSettings}

def firstSegment (reference : String) : String :=
  String.ofList (Text.cutAt '/' reference.toList).1

theorem firstSegment_of_not_mem {reference : String} (h : '/' ∉ reference.toList) :
    firstSegment reference = reference := by
  rw [firstSegment, Text.cutAt_fst_of_not_mem h, String.ofList_toList]

theorem firstSegment_append (front rest : String) :
    firstSegment (front ++ "/" ++ rest) = firstSegment front := by
  have hlist : (front ++ "/" ++ rest).toList = front.toList ++ '/' :: rest.toList := by simp
  rw [firstSegment, hlist, Text.cutAt_fst_append_cons, firstSegment]

theorem slash_not_mem_of_mem_components {component : String} (h : component ∈ components) :
    '/' ∉ component.toList ∧ component ≠ defaultNamespace := by
  revert component
  decide +kernel

theorem mem_components_of_component? {path component : String}
    (h : component? settings path = some component) : component ∈ components := by
  unfold component? at h
  split at h
  · cases h
  · cases h
  · simp only [componentName?] at h
    split at h
    · split at h
      · next hname =>
        obtain rfl := Option.some.inj h
        exact hname.2
      · cases h
    · cases h

theorem exists_of_mem_references {project : List SourceFile} {name : String}
    (h : name ∈ references settings project) :
    ∃ component ∈ components, name = reference settings component := by
  rw [references, mem_distinctBy_id, and_iff_left List.not_mem_nil, List.mem_map] at h
  obtain ⟨component, hcomponent, rfl⟩ := h
  obtain ⟨file, -, hfile⟩ := List.mem_filterMap.1 hcomponent
  exact ⟨component, mem_components_of_component? hfile, rfl⟩

theorem reference_of_namespace? {ns : String} (h : namespace? settings = some ns) (hne : ns ≠ "")
    (component : String) : reference settings component = ns ++ "/" ++ component := by
  simp only [reference, h, if_neg hne]

theorem reference_of_bare (h : ∀ ns, namespace? settings = some ns → ns = "") (component : String) :
    reference settings component = component := by
  unfold reference
  split
  · next ns hns => rw [if_pos (h ns hns)]
  · rfl

theorem mem_of_namespace? {ns : String} (h : namespace? settings = some ns) :
    ns ∈ defaultNamespace :: settings.registries := by
  unfold namespace? at h
  split at h
  · obtain rfl := Option.some.inj h
    exact List.mem_cons_self
  · exact List.mem_cons_of_mem _ (List.mem_of_head? h)

theorem registries_of_namespace?_eq_none (h : namespace? settings = none) :
    settings.registries = [] := by
  unfold namespace? at h
  split at h
  · cases h
  · exact List.head?_eq_none_iff.1 h

end Kit

namespace Manifest

variable {settings : AliasSettings}

theorem namespaces_eq (references : List String) :
    namespaces settings references = distinctBy id [] ((references.map Kit.firstSegment).filter
      (· ∈ Kit.defaultNamespace :: settings.registries)) := rfl

/-- References with one first segment have it as their only namespace, if it is known at all. -/
theorem namespaces_of_forall_eq {references : List String} {first : String}
    (h : ∀ name ∈ references, Kit.firstSegment name = first) :
    namespaces settings references =
      if references = [] ∨ first ∉ Kit.defaultNamespace :: settings.registries then []
      else [first] := by
  have hmap : ∀ segment ∈ references.map Kit.firstSegment, segment = first := by
    simpa using h
  have hnil : (references.map Kit.firstSegment).filter
      (· ∈ Kit.defaultNamespace :: settings.registries) = [] ↔
        references = [] ∨ first ∉ Kit.defaultNamespace :: settings.registries := by
    simp only [List.filter_eq_nil_iff, decide_eq_true_eq]
    constructor
    · intro hnone
      cases references with
      | nil => exact .inl rfl
      | cons name references =>
        have hname := hnone _ List.mem_cons_self
        rw [h name List.mem_cons_self] at hname
        exact .inr hname
    · rintro (rfl | hfirst) segment hsegment
      · cases hsegment
      · rwa [hmap segment hsegment]
  rw [namespaces_eq, distinctBy_id_of_forall_eq fun segment hsegment =>
    hmap segment (List.mem_of_mem_filter hsegment)]
  simp only [hnil]

/-- Bare references are read as a namespace each, and count if they name a registry. -/
theorem namespaces_of_bare (h : ∀ ns, Kit.namespace? settings = some ns → ns = "")
    (project : List SourceFile) :
    namespaces settings (Kit.references settings project) =
      (Kit.references settings project).filter (· ∈ settings.registries) := by
  have hcomponent : ∀ name ∈ Kit.references settings project, name ∈ Kit.components := by
    intro name hname
    obtain ⟨component, hmem, rfl⟩ := Kit.exists_of_mem_references hname
    rwa [Kit.reference_of_bare h]
  have hmap : (Kit.references settings project).map Kit.firstSegment =
      Kit.references settings project := by
    refine (List.map_congr_left fun name hname => ?_).trans (List.map_id _)
    exact Kit.firstSegment_of_not_mem
      (Kit.slash_not_mem_of_mem_components (hcomponent name hname)).1
  have hknown : (Kit.references settings project).filter
      (· ∈ Kit.defaultNamespace :: settings.registries) =
        (Kit.references settings project).filter (· ∈ settings.registries) := by
    refine List.filter_congr fun name hname => ?_
    have hne := (Kit.slash_not_mem_of_mem_components (hcomponent name hname)).2
    simp [hne]
  have hnodup : (Kit.references settings project).Nodup := nodup_distinctBy_id ..
  rw [namespaces_eq, hmap, hknown]
  refine distinctBy_eq_self ?_ fun _ _ => List.not_mem_nil
  rw [List.map_id]
  exact hnodup.filter _

/-- What is read back from the references of a project: with no registry, nothing; the namespace
itself if it is one segment; its first segment if it has more and that segment is known; and the
components that name a registry if the namespace is empty. -/
structure IsReadBack (settings : AliasSettings) (references found : List String) : Prop where
  none : Kit.namespace? settings = none → found = []
  whole (ns : String) : Kit.namespace? settings = some ns → ns ≠ "" → '/' ∉ ns.toList →
    found = if references = [] then [] else [ns]
  front (first rest : String) : Kit.namespace? settings = some (first ++ "/" ++ rest) →
    '/' ∉ first.toList →
    found = if references = [] ∨ first ∉ Kit.defaultNamespace :: settings.registries then []
      else [first]
  bare : Kit.namespace? settings = some "" →
    found = references.filter (· ∈ settings.registries)

theorem isReadBack_references (settings : AliasSettings) (project : List SourceFile) :
    IsReadBack settings (Kit.references settings project)
      (namespaces settings (Kit.references settings project)) := by
  have hfirst {ns : String} (h : Kit.namespace? settings = some ns) (hne : ns ≠ "") :
      ∀ name ∈ Kit.references settings project, Kit.firstSegment name = Kit.firstSegment ns := by
    intro name hname
    obtain ⟨component, -, rfl⟩ := Kit.exists_of_mem_references hname
    rw [Kit.reference_of_namespace? h hne, Kit.firstSegment_append]
  constructor
  · intro h
    rw [namespaces_of_bare (by simp [h]), Kit.registries_of_namespace?_eq_none h]
    simp
  · intro ns h hne hslash
    rw [namespaces_of_forall_eq (hfirst h hne), Kit.firstSegment_of_not_mem hslash]
    simp [Kit.mem_of_namespace? h]
  · intro first rest h hslash
    have hne : first ++ "/" ++ rest ≠ "" := fun he => by
      have hlist := congrArg String.toList he
      simp at hlist
    rw [namespaces_of_forall_eq (hfirst h hne), Kit.firstSegment_append,
      Kit.firstSegment_of_not_mem hslash]
  · intro h
    exact namespaces_of_bare (by simp [h]) project

end Manifest

namespace Block

theorem exists_assemble_eq {text : String} {manifest : Manifest}
    (h : Manifest.parse text = .ok manifest) (name : String) (settings : AliasSettings)
    (members project : List SourceFile) :
    ∃ records, assemble name settings members project text =
      .ok (ofFiles name settings members project manifest, records) :=
  ⟨_, by rw [assemble, h]⟩

theorem exists_eq_ofFiles {name : String} {settings : AliasSettings}
    {members project : List SourceFile} {text : String} {block : Block}
    {records : List Journal.Record}
    (h : assemble name settings members project text = .ok (block, records)) :
    ∃ manifest, block = ofFiles name settings members project manifest := by
  unfold assemble at h
  split at h
  · cases h
  · next manifest _ => exact ⟨manifest, (congrArg Prod.fst (Except.ok.inj h)).symm⟩

/-- The packages that stand for a namespace which is read back are not needed. -/
theorem ne_of_mem_namespaces {name : String} {settings : AliasSettings}
    {members project : List SourceFile} {text : String} {block : Block}
    {records : List Journal.Record}
    (h : assemble name settings members project text = .ok (block, records)) {ns : String}
    (hns : ns ∈ Manifest.namespaces settings (Kit.references settings project)) {package : String}
    (hpackage : package ∈ block.dependencies ++ block.devDependencies) :
    package ≠ ns ∧ package ≠ ns ++ "/ui" := by
  obtain ⟨manifest, rfl⟩ := exists_eq_ofFiles h
  have hneeded : Manifest.isNeeded (importedPackages members)
      (Manifest.namespaces settings (Kit.references settings project)) package = true := by
    rcases List.mem_append.1 hpackage with hpackage | hpackage <;>
      exact (List.mem_filter.1 hpackage).2
  rw [Manifest.isNeeded, Bool.and_eq_true, Bool.not_eq_true',
    Manifest.standsForRegistry_eq_false_iff] at hneeded
  exact (hneeded.2 (List.ne_nil_of_mem hns)).2 ns hns

/-- The namespace of the references is read back from them when it is one segment, and exactly so
far otherwise as `IsReadBack` has it. A block with references of such a namespace lists none of the
packages that stand for it. -/
theorem references_read_back (settings : AliasSettings) (project : List SourceFile) :
    Manifest.IsReadBack settings (Kit.references settings project)
      (Manifest.namespaces settings (Kit.references settings project)) ∧
    ∀ ns, Kit.namespace? settings = some ns → ns ≠ "" → '/' ∉ ns.toList →
      ∀ name members text block records,
        assemble name settings members project text = .ok (block, records) →
        block.registryDependencies ≠ [] →
        ∀ package ∈ block.dependencies ++ block.devDependencies,
          package ≠ ns ∧ package ≠ ns ++ "/ui" := by
  have hread := Manifest.isReadBack_references settings project
  refine ⟨hread, fun ns hns hne hslash name members text block records h hreferences => ?_⟩
  have hblock : block.registryDependencies = Kit.references settings project := by
    obtain ⟨manifest, rfl⟩ := exists_eq_ofFiles h
    rfl
  have hmem : ns ∈ Manifest.namespaces settings (Kit.references settings project) := by
    rw [hread.whole ns hns hne hslash, if_neg (hblock ▸ hreferences)]
    exact List.mem_singleton_self ns
  exact fun package hpackage => ne_of_mem_namespaces h hmem hpackage

theorem references_read_back_acme :
    let settings : AliasSettings := { ui := "@/ui", registries := ["@acme", "@acme/ui"] }
    let project : List SourceFile := [⟨"ui/button.tsx", ""⟩, ⟨"ui/card.jsx", ""⟩]
    let members : List SourceFile := [⟨"a.ts", "import '@acme/ui'\nimport 'zod'"⟩]
    let text := "\x7b\"dependencies\": \x7b\"@acme/ui\": \"1\", \"zod\": \"3\"\x7d\x7d"
    Kit.references settings project = ["@acme/button", "@acme/card"] ∧
      Manifest.namespaces settings (Kit.references settings project) = ["@acme"] ∧
      ∃ block records, assemble "demo" settings members project text = .ok (block, records) ∧
        block.dependencies = ["zod"] ∧ "@acme/ui" ∉ block.dependencies := by
  intro settings project members text
  obtain ⟨hread, hdropped⟩ := references_read_back settings project
  have hreferences : Kit.references settings project = ["@acme/button", "@acme/card"] := by
    decide +kernel
  have hns : Kit.namespace? settings = some "@acme" := by decide
  have hparse : Manifest.parse text = .ok ⟨["@acme/ui", "zod"], []⟩ := by decide +kernel
  obtain ⟨records, hblock⟩ := exists_assemble_eq hparse "demo" settings members project
  refine ⟨hreferences, ?_, _, _, hblock, by decide +kernel, fun hmem => ?_⟩
  · rw [hread.whole "@acme" hns (by decide) (by decide), hreferences, if_neg (by decide)]
  · have hne := hdropped "@acme" hns (by decide) (by decide) _ _ _ _ _ hblock
      (by rw [ofFiles, hreferences]; decide) "@acme/ui" (List.mem_append_left _ hmem)
    exact hne.2 rfl

/-- A namespace of two segments is not read back, and its package is listed. -/
theorem references_not_read_back_of_slash :
    let settings : AliasSettings := { ui := "@/ui", registries := ["@acme/kit"] }
    let project : List SourceFile := [⟨"ui/button.tsx", ""⟩]
    let members : List SourceFile := [⟨"a.ts", "import '@acme/kit'"⟩]
    let text := "\x7b\"dependencies\": \x7b\"@acme/kit\": \"1\"\x7d\x7d"
    Kit.namespace? settings = some "@acme/kit" ∧
      Kit.references settings project = ["@acme/kit/button"] ∧
      Manifest.namespaces settings (Kit.references settings project) = [] ∧
      ∃ block records, assemble "demo" settings members project text = .ok (block, records) ∧
        block.registryDependencies = ["@acme/kit/button"] ∧
        block.dependencies = ["@acme/kit"] := by
  intro settings project members text
  have hparse : Manifest.parse text = .ok ⟨["@acme/kit"], []⟩ := by decide +kernel
  obtain ⟨records, hblock⟩ := exists_assemble_eq hparse "demo" settings members project
  exact ⟨by decide, by decide +kernel, by decide +kernel, _, _, hblock, by decide +kernel,
    by decide +kernel⟩

end Block

end RegistryBlock
