import RegistryBlock.Project.Files
import RegistryBlock.Proofs.Specifier.Natural

/-!
# Specifiers of directories

A directory is imported by any way from a file that leads to it, whatever dots and slashes the way
is written with, and by its path below the sources behind `@/`. All of them denote the directory,
and an index file in it is found. The directory of the project is the exception: it is denoted by
the empty path, which is taken for no place at all.
-/

namespace RegistryBlock.Specifier

/-- The ways to write a directory of the project: as a way from the directory of the file
`importer`, or from the directory of the sources. -/
inductive Denotes (settings : AliasSettings) (importer : String) : String → String → Prop where
  | relative {specifier directory : String} (hrelative : isRelative specifier.toList = true)
      (hway : Path.Leads (Path.names importer).dropLast (Path.segments specifier.toList)
        (Path.names directory)) : Denotes settings importer specifier directory
  | sources {specifier : String} (h : specifier = "@" ∨ specifier = "@/") :
      Denotes settings importer specifier settings.root
  | below {inner : String} (h : Path.IsNormal (settings.rootFront ++ inner)) :
      Denotes settings importer ("@/" ++ inner) (settings.rootFront ++ inner)

variable {settings : AliasSettings} {importer specifier directory : String}

theorem candidate_of_leads (table : AliasTable) (himporter : Path.IsNormal importer)
    (hrelative : isRelative specifier.toList = true)
    (hway : Path.Leads (Path.names importer).dropLast (Path.segments specifier.toList)
      (Path.names directory)) : candidate table importer specifier = directory := by
  have hnames : ∀ seg ∈ Path.segments importer.toList, Path.IsName seg := himporter.2
  have hne : ∀ seg ∈ Path.segments importer.toList, seg ≠ [] := fun seg hseg => (hnames seg hseg).1
  rw [Path.names_of_isNormal himporter] at hway
  have habove : ∀ seg ∈ (Path.segments importer.toList).dropLast, Path.IsName seg ∧ '/' ∉ seg :=
    fun seg hseg => ⟨hnames seg (List.dropLast_subset _ hseg),
      Path.slash_not_mem_of_mem_segments (List.dropLast_subset _ hseg)⟩
  have hwalk : Path.walk false (Path.segments (Path.directory importer.toList) ++
      Path.segments specifier.toList) = Path.names directory := by
    rw [Path.directory_eq hne]
    exact (Path.walk_segments_ofSegments false (fun seg hseg => (habove seg hseg).2) [] _).trans
      (hway.walk_eq (fun seg hseg => (habove seg hseg).1) false)
  rw [candidate, if_pos hrelative, Path.key_of_isNormal himporter,
    Path.join_eq (Path.isRelative_directory hne) (isRelative_dropWhile_isSlash _),
    Path.walk_segments_dropWhile_isSlash, hwalk, Path.ofSegments_names, String.ofList_toList]

theorem candidate_of_sources (h : specifier = "@" ∨ specifier = "@/") :
    candidate (.ofSettings settings) importer specifier = settings.root := by
  have hexact : ∀ (entry : AliasEntry) (dir : List Char), entry.IsAlias settings dir →
      entry.name = specifier → ∀ seg ∈ Path.segments dir, Path.IsName seg := by
    intro entry dir halias hname
    obtain ⟨tail, hspelled, htail⟩ := halias.name
    refine absurd ?_ halias.ne_nil
    rcases h with rfl | rfl
    · rw [hname] at hspelled
      cases hspelled
    · rw [hname, List.self_eq_append_right] at hspelled
      rw [← htail, hspelled, List.dropWhile_nil]
  have hroot : Path.join settings.root.toList [] = settings.root.toList := by
    unfold AliasSettings.root
    split <;> decide
  rw [candidate_eq_catchAll hexact]
  rcases h with rfl | rfl
  · simp [candidate, isRelative, AliasTable.catchAll, AliasEntry.substitute?, AliasEntry.catchAll]
  · have hat := @candidate_catchAll_at settings importer ""
    rw [String.append_empty, String.toList_empty, List.dropWhile_nil, hroot] at hat
    rw [hat, String.ofList_toList]

/-- However a directory is written, it is what the specifier denotes. -/
theorem Denotes.candidate_eq (h : Denotes settings importer specifier directory)
    (himporter : Path.IsNormal importer) :
    candidate (.ofSettings settings) importer specifier = directory := by
  cases h with
  | relative hrelative hway => exact candidate_of_leads _ himporter hrelative hway
  | sources h => exact candidate_of_sources h
  | below h => exact (candidate_natural h rfl importer).1

/-! ### Index files -/

theorem inDirectory_eq_below (h : Path.IsNormal directory) (name : String) :
    inDirectory directory name = below directory name := by
  have hnames : ∀ seg ∈ Path.segments directory.toList, seg ≠ [] ∧ '/' ∉ seg := fun seg hseg =>
    ⟨(h.2 seg hseg).1, Path.slash_not_mem_of_mem_segments hseg⟩
  obtain ⟨front, c, hend, hc⟩ :=
    Path.getLast?_ofSegments_ne (Path.segments_ne_nil directory.toList) hnames
  rw [Path.ofSegments_segments] at hend
  have hdrop : Text.dropEndWhile isSlash directory.toList = directory.toList := by
    simp [hend, Text.dropEndWhile, isSlash, hc]
  rw [inDirectory, hdrop, String.ofList_toList, below, if_neg h.ne_empty]

/-- If nothing but an index file can stand for a directory, the first one that is known does. -/
theorem target?_of_directory {table : AliasTable} {known : String → Bool}
    (hcandidate : candidate table importer specifier = directory)
    (hdirectory : Path.IsNormal directory)
    (hunknown : ∀ path ∈ directory :: sourceExtensions.map (directory ++ ·), known path = false) :
    target? table known importer specifier =
      (indexNames.find? fun name => known (below directory name)).map (below directory) := by
  have hplain : (directory :: sourceExtensions.map (withExtension directory)).find? known =
      none := by
    rw [List.find?_eq_none, List.forall_mem_cons]
    rw [List.forall_mem_cons] at hunknown
    refine ⟨by simp [hunknown.1], fun path hpath => ?_⟩
    obtain ⟨extension, hextension, rfl⟩ := List.mem_map.1 hpath
    unfold withExtension
    split
    · simp [hunknown.1]
    · simp [hunknown.2 _ (List.mem_map_of_mem hextension)]
  have hindex : indexNames.map (inDirectory directory) = indexNames.map (below directory) :=
    List.map_congr_left fun name _ => inDirectory_eq_below hdirectory name
  rw [target?_eq_find? table known (hcandidate.symm ▸ hdirectory.staysInside), hcandidate, variants,
    List.find?_append, hplain, Option.none_or, hindex, List.find?_map]
  rfl

/-- A directory that holds an index file, and that nothing else stands for, is imported from every
file by every way that leads there and by its path below the sources: the first index file that is
known is found. The project itself is not imported by any of them. -/
theorem leads_to_index (settings : AliasSettings) {known : String → Bool}
    {directory importer specifier : String} (hdirectory : directory = "" ∨ Path.IsNormal directory)
    (himporter : Path.IsNormal importer)
    (hunknown : ∀ path ∈ directory :: sourceExtensions.map (directory ++ ·), known path = false)
    (hindex : ∃ name ∈ indexNames, known (below directory name) = true)
    (hspecifier : Denotes settings importer specifier directory) :
    (directory ≠ "" → ∃ name,
      (indexNames.find? fun name => known (below directory name)) = some name ∧
      target? (.ofSettings settings) known importer specifier = some (below directory name)) ∧
    (directory = "" → target? (.ofSettings settings) known importer specifier = none) := by
  have hcandidate := hspecifier.candidate_eq himporter
  constructor
  · intro hne
    obtain ⟨name, hname⟩ := Option.isSome_iff_exists.1 (List.find?_isSome.2 hindex)
    refine ⟨name, hname, ?_⟩
    rw [target?_of_directory hcandidate (hdirectory.resolve_left hne) hunknown, hname,
      Option.map_some]
  · rintro rfl
    rw [target?, hcandidate, if_pos (.inl rfl)]

theorem leads_to_index_shop :
    let settings : AliasSettings :=
      { components := "@/shop", lib := "@/./shop/", sourceRoot := true }
    let known := fun path =>
      decide (path ∈ ["src/app/page.tsx", "src/shop/index.ts", "src/shop/index.js"])
    (∀ path ∈ "src/shop" :: sourceExtensions.map ("src/shop" ++ ·), known path = false) ∧
      (∃ name ∈ indexNames, known (below "src/shop" name) = true) ∧
      ∀ specifier ∈ ["../shop", ".././/shop/x/../", "@/shop"],
        Denotes settings "src/app/page.tsx" specifier "src/shop" ∧
          target? (.ofSettings settings) known "src/app/page.tsx" specifier =
            some "src/shop/index.ts" := by
  intro settings known
  have hshop : Path.IsNormal "src/shop" := by decide
  have hunknown : ∀ path ∈ "src/shop" :: sourceExtensions.map ("src/shop" ++ ·),
      known path = false := by decide
  have hindex : ∃ name ∈ indexNames, known (below "src/shop" name) = true := by decide
  refine ⟨hunknown, hindex, fun specifier hspecifier => ?_⟩
  have hdenotes : Denotes settings "src/app/page.tsx" specifier "src/shop" := by
    simp only [List.mem_cons, List.not_mem_nil, or_false] at hspecifier
    rcases hspecifier with rfl | rfl | rfl
    · exact .relative rfl (.climb (by decide) (.down (by decide) (.arrive _)))
    · exact .relative rfl (.climb (by decide) (.stay (by decide) (.stay (by decide)
        (.down (by decide) (.down (by decide) (.climb (by decide) (.stay (by decide)
          (.arrive _))))))))
    · exact @Denotes.below settings "src/app/page.tsx" "shop" hshop
  obtain ⟨name, hname, htarget⟩ :=
    (leads_to_index settings (.inr hshop) (by decide) hunknown hindex hdenotes).1 (by decide)
  have hfirst : name = "index.ts" := Option.some.inj (hname.symm.trans (by decide))
  exact ⟨hdenotes, by rw [htarget, hfirst]; decide⟩

/-- The index file of the project itself is not found, however the project is written. -/
theorem not_leads_to_index_of_project :
    let known := fun path => decide (path = "index.ts")
    (∀ path, known path = true → Path.IsNormal path) ∧ Path.IsNormal "main.ts" ∧
      (∀ path ∈ "" :: sourceExtensions.map ("" ++ ·), known path = false) ∧
      known (below "" "index.ts") = true ∧
      ∀ specifier ∈ [".", "./", "@", "@/"], Denotes {} "main.ts" specifier "" ∧
        target? (.ofSettings {}) known "main.ts" specifier = none := by
  intro known
  refine ⟨fun path hpath => ?_, by decide, by decide, by decide, ?_⟩
  · obtain rfl := of_decide_eq_true hpath
    decide
  · simp only [List.forall_mem_cons]
    refine ⟨⟨.relative rfl (.stay (by decide) (.arrive _)), by decide +kernel⟩,
      ⟨.relative rfl (.stay (by decide) (.stay (by decide) (.arrive _))), by decide +kernel⟩,
      ⟨.sources (.inl rfl), by decide +kernel⟩, ⟨.sources (.inr rfl), by decide +kernel⟩, ?_⟩
    exact fun specifier hspecifier => absurd hspecifier List.not_mem_nil

end RegistryBlock.Specifier
