import RegistryBlock.Proofs.Layout.Candidate

/-!
# Targets below the source root

What a candidate may stand for moves below `src/` with the candidate, so the target of a specifier
moves along with the files of the project. A candidate that starts at the root of the file tree
leads to no file in either layout.
-/

namespace RegistryBlock.Specifier

theorem withExtension_belowSource (path : String) {extension : String}
    (h : extension ∈ sourceExtensions) :
    withExtension (belowSource path) extension = belowSource (withExtension path extension) := by
  have hslash : ∀ extension ∈ sourceExtensions, '/' ∉ extension.toList := by decide
  unfold withExtension
  rw [toList_belowSource, Text.endsWith_append_cons (hslash extension h)]
  split
  · rfl
  · exact belowSource_append path extension

theorem inDirectory_belowSource {path : String} (hne : path ≠ "")
    (hrel : Path.IsRelative path.toList) (name : String) :
    inDirectory (belowSource path) name = belowSource (inDirectory path name) := by
  have hlist : path.toList ≠ [] := by simpa using hne
  obtain ⟨c, cs, hcs⟩ := List.exists_cons_of_ne_nil hlist
  have hc : isSlash c = false := by simpa [isSlash, Path.IsRelative, hcs] using hrel
  have hdrop : Text.dropEndWhile isSlash (sourceDir ++ '/' :: c :: cs) =
      sourceDir ++ '/' :: Text.dropEndWhile isSlash (c :: cs) := by
    simpa using Text.dropEndWhile_append_cons hc (sourceDir ++ ['/']) cs
  rw [inDirectory, inDirectory, toList_belowSource, hcs, hdrop, ← String.toList_inj,
    toList_belowSource]
  simp

theorem variants_belowSource {path : String} (hne : path ≠ "")
    (hrel : Path.IsRelative path.toList) :
    variants (belowSource path) = (variants path).map belowSource := by
  have hextensions : sourceExtensions.map (withExtension (belowSource path)) =
      (sourceExtensions.map (withExtension path)).map belowSource := by
    rw [List.map_map]
    exact List.map_congr_left fun extension h => withExtension_belowSource path h
  have hnames : indexNames.map (inDirectory (belowSource path)) =
      (indexNames.map (inDirectory path)).map belowSource := by
    rw [List.map_map]
    exact List.map_congr_left fun name _ => inDirectory_belowSource hne hrel name
  rw [variants, variants, hextensions, hnames, List.map_append, List.map_cons]

theorem not_isRelative_append {path : String} (h : ¬ Path.IsRelative path.toList) (tail : String) :
    ¬ Path.IsRelative (path ++ tail).toList := by
  obtain ⟨rest, hrest⟩ := List.head?_eq_some_iff.1 (not_not.1 h)
  rw [String.toList_append, hrest]
  exact fun hrel => hrel rfl

/-- What a path from the root may stand for starts at the root as well. -/
theorem not_isRelative_of_mem_variants {path variant : String}
    (hroot : ¬ Path.IsRelative path.toList) (h : variant ∈ variants path) :
    ¬ Path.IsRelative variant.toList := by
  rw [variants, List.cons_append, List.mem_cons, List.mem_append, List.mem_map, List.mem_map] at h
  rcases h with rfl | ⟨extension, -, rfl⟩ | ⟨name, -, rfl⟩
  · exact hroot
  · unfold withExtension
    split
    · exact hroot
    · exact not_isRelative_append hroot extension
  · refine not_isRelative_append ?_ name
    rw [String.toList_append, String.toList_ofList]
    obtain ⟨rest, hrest⟩ := Text.dropEndWhile_isPrefix (p := isSlash) path.toList
    cases hdrop : Text.dropEndWhile isSlash path.toList with
    | nil => exact fun hrel => hrel rfl
    | cons c cs =>
      rw [hdrop] at hrest
      rw [← hrest] at hroot
      exact hroot

theorem target?_eq_find? (table : AliasTable) (known : String → Bool) {key specifier : String}
    (h : Path.StaysInside (candidate table key specifier)) :
    target? table known key specifier =
      (variants (candidate table key specifier)).find? known := by
  have hup : Text.startsWith "../".toList (candidate table key specifier).toList = false := by
    rw [Bool.eq_false_iff, Ne, Text.startsWith_iff]
    rintro ⟨rest, hrest⟩
    apply h.2
    rw [hrest]
    simp [Path.segments, Text.split, Path.up]
  have hguard : ¬ (candidate table key specifier = "" ∨
      Text.startsWith "../".toList (candidate table key specifier).toList = true) := by
    rw [hup]
    exact not_or.2 ⟨h.1, Bool.false_ne_true⟩
  rw [target?, if_neg hguard]

/-- Known paths that all start at a name do not hold what a path from the root may stand for. -/
theorem find?_variants_eq_none {known : String → Bool}
    (hknown : ∀ path, known path = true → Path.IsRelative path.toList) {path : String}
    (h : ¬ Path.IsRelative path.toList) : (variants path).find? known = none := by
  rw [List.find?_eq_none]
  intro variant hvariant hmem
  exact not_isRelative_of_mem_variants h hvariant (hknown variant hmem)

/-- The target of a specifier moves along with the files, if the specifier stays inside the
project. -/
theorem target?_withSourceRoot {settings : AliasSettings} (hflat : settings.sourceRoot = false)
    {known moved : String → Bool} (hknown : ∀ path, known path = true → Path.IsNormal path)
    (hmoved : ∀ path, moved path = true → ∃ flat, path = belowSource flat)
    (hbelow : ∀ path, moved (belowSource path) = known path)
    {key specifier : String} (hkey : Path.IsNormal key)
    (hpath : Path.StaysInside (candidate (.ofSettings settings) key specifier)) :
    target? (.ofSettings settings.withSourceRoot) moved (belowSource key) specifier =
      (target? (.ofSettings settings) known key specifier).map belowSource := by
  have hcandidate := candidate_withSourceRoot hflat hkey hpath
  rw [target?_eq_find? _ known hpath]
  generalize candidate (.ofSettings settings) key specifier = path at hcandidate hpath ⊢
  rcases hcandidate with ⟨hrel, hcandidate⟩ | ⟨hroot, hcandidate⟩
  · have hinside := staysInside_belowSource path
    rw [target?_eq_find? _ moved (hcandidate ▸ hinside), hcandidate,
      variants_belowSource hpath.1 hrel, List.find?_map]
    exact congrArg (Option.map belowSource) (congrArg (List.find? · _) (funext hbelow))
  · have hmovedRel : ∀ path, moved path = true → Path.IsRelative path.toList := by
      intro path hpath
      obtain ⟨flat, rfl⟩ := hmoved path hpath
      rw [toList_belowSource]
      simp [Path.IsRelative, sourceDir]
    rw [target?_eq_find? _ moved (hcandidate ▸ hpath), hcandidate,
      find?_variants_eq_none (fun path h => (hknown path h).isRelative) hroot,
      find?_variants_eq_none hmovedRel hroot]
    rfl

end RegistryBlock.Specifier
