import RegistryBlock.Proofs.Path.Normal
import RegistryBlock.Proofs.Text.Ends
import RegistryBlock.Specifier.Target

/-!
# Candidates below the source root

With the source root set, a file below `src/` denotes by a specifier the same candidate below `src/`
as it does without it. Relative joins, aliases and the fallback each put `src/` in front of the
candidate in their own way; only a candidate that starts at the root of the file tree stays where
it is.
-/

namespace RegistryBlock

def sourceDir : Path.Segment := "src".toList

def belowSource (path : String) : String := "src/" ++ path

theorem isName_sourceDir : Path.IsName sourceDir := by decide

theorem slash_not_mem_sourceDir : '/' ∉ sourceDir := by decide

theorem toList_belowSource (path : String) :
    (belowSource path).toList = sourceDir ++ '/' :: path.toList := by
  rw [belowSource, String.toList_append]
  rfl

theorem belowSource_injective : Function.Injective belowSource := by
  intro path other h
  have hlist := congrArg String.toList h
  rw [toList_belowSource, toList_belowSource] at hlist
  simpa [String.toList_inj] using hlist

theorem belowSource_append (path tail : String) :
    belowSource path ++ tail = belowSource (path ++ tail) := by
  rw [belowSource, belowSource, String.append_assoc]

theorem ofList_inside_sourceDir {path : String} (h : path ≠ "") :
    String.ofList (Path.inside sourceDir path.toList) = belowSource path := by
  rw [Path.inside, if_neg (by simpa using h), ← toList_belowSource, String.ofList_toList]

def AliasSettings.withSourceRoot (settings : AliasSettings) : AliasSettings :=
  { settings with sourceRoot := true }

/-- Whether a path is that of some place in the project, and not the project itself. -/
def Path.StaysInside (path : String) : Prop :=
  path ≠ "" ∧ (Path.segments path.toList).head? ≠ some Path.up

instance (path : String) : Decidable (Path.StaysInside path) :=
  inferInstanceAs (Decidable (path ≠ "" ∧ (Path.segments path.toList).head? ≠ some Path.up))

theorem staysInside_belowSource (path : String) : Path.StaysInside (belowSource path) := by
  have hlist := toList_belowSource path
  refine ⟨fun h => by simp [h] at hlist, ?_⟩
  rw [hlist, Path.segments_append_cons, Path.segments,
    Text.split_of_not_mem slash_not_mem_sourceDir]
  exact fun h => isName_sourceDir.2.2 (Option.some.inj h)

/-! ### Alias tables -/

def AliasEntry.inSource (entry : AliasEntry) : AliasEntry :=
  { entry with directory := String.ofList (Path.inside sourceDir entry.directory.toList) }

theorem name_inSource (entry : AliasEntry) : entry.inSource.name = entry.name := rfl

theorem front_inSource (entry : AliasEntry) : entry.inSource.front = entry.front := rfl

theorem isRelative_dropWhile_isSlash (cs : List Char) : Path.IsRelative (cs.dropWhile isSlash) := by
  intro h
  exact absurd (Text.head?_dropWhile h) (by decide)

theorem isRelative_of_aliasPath?_eq_some {value : String} {path : List Char}
    (h : aliasPath? value = some path) : path ≠ [] ∧ Path.IsRelative path := by
  unfold aliasPath? at h
  split at h
  · next c cs hpath =>
    obtain rfl := Option.some.inj h
    obtain ⟨rest, -, htrim⟩ := Option.map_eq_some_iff.1 hpath
    refine ⟨List.cons_ne_nil c cs, fun hhead => ?_⟩
    rw [← htrim] at hhead
    exact absurd (Text.head?_trimBy hhead) (by decide)
  · cases h

namespace AliasTable

variable {settings : AliasSettings}

theorem ofAlias?_withSourceRoot (h : settings.sourceRoot = false) (value : String) :
    ofAlias? settings.withSourceRoot value =
      (ofAlias? settings value).map AliasEntry.inSource := by
  unfold ofAlias?
  cases hpath : aliasPath? value with
  | none => rfl
  | some path =>
    have hne := (isRelative_of_aliasPath?_eq_some hpath).1
    simp [AliasEntry.inSource, AliasSettings.rootFront, AliasSettings.withSourceRoot, h,
      Path.inside, hne, sourceDir, ← String.toList_inj]

theorem unsorted_withSourceRoot (h : settings.sourceRoot = false) :
    unsorted settings.withSourceRoot = (unsorted settings).map AliasEntry.inSource := by
  have hroot : (⟨"@", settings.withSourceRoot.root⟩ : AliasEntry) =
      AliasEntry.inSource ⟨"@", settings.root⟩ := by
    simp [AliasEntry.inSource, AliasSettings.root, AliasSettings.withSourceRoot, h, Path.inside,
      sourceDir]
  have hvalues : settings.withSourceRoot.values = settings.values := rfl
  rw [unsorted, unsorted, List.map_append, List.map_filterMap, hvalues, hroot]
  congr 1
  exact congrArg (fun f => List.filterMap f settings.values)
    (funext (ofAlias?_withSourceRoot h))

theorem entries_withSourceRoot (h : settings.sourceRoot = false) :
    (ofSettings settings.withSourceRoot).entries =
      (ofSettings settings).entries.map AliasEntry.inSource := by
  change sort (unsorted settings.withSourceRoot) = (sort (unsorted settings)).map _
  rw [unsorted_withSourceRoot h, sort, sort]
  exact (List.map_mergeSort (f := AliasEntry.inSource) fun _ _ _ _ => rfl).symm

theorem isRelative_of_mem_entries (h : settings.sourceRoot = false) {entry : AliasEntry}
    (hentry : entry ∈ (ofSettings settings).entries) :
    Path.IsRelative entry.directory.toList := by
  have hmem : entry ∈ unsorted settings := List.mem_mergeSort.1 hentry
  rw [unsorted, List.mem_append, List.mem_filterMap] at hmem
  rcases hmem with ⟨value, -, hvalue⟩ | hmem
  · obtain ⟨path, hpath, rfl⟩ := Option.map_eq_some_iff.1 hvalue
    simpa [AliasSettings.rootFront, h] using (isRelative_of_aliasPath?_eq_some hpath).2
  · rw [List.mem_singleton.1 hmem]
    simp [AliasSettings.root, h, Path.IsRelative]

end AliasTable

/-! ### Candidates -/

theorem isNormal_belowSource {path : String} (h : Path.IsNormal path) :
    Path.IsNormal (belowSource path) := by
  refine ⟨?_, ?_⟩
  · rw [toList_belowSource]
    simpa [sourceDir] using h.1
  · rw [toList_belowSource, Path.segments_append_cons, Path.segments,
      Text.split_of_not_mem slash_not_mem_sourceDir]
    intro seg hseg
    rcases List.mem_append.1 hseg with hseg | hseg
    · rw [List.mem_singleton.1 hseg]
      exact isName_sourceDir
    · exact h.2 seg hseg

theorem directory_belowSource {path : String} (h : Path.IsNormal path) :
    Path.directory (belowSource path).toList =
      Path.inside sourceDir (Path.directory path.toList) := by
  rw [toList_belowSource]
  exact Path.directory_inside isName_sourceDir.1 slash_not_mem_sourceDir
    fun seg hseg => (h.2 seg hseg).1

theorem ofList_join_inside {base tail : List Char} (hbase : Path.IsRelative base)
    (htail : Path.IsRelative tail)
    (h : Path.StaysInside (String.ofList (Path.join base tail))) :
    String.ofList (Path.join (Path.inside sourceDir base) tail) =
      belowSource (String.ofList (Path.join base tail)) := by
  have hne : Path.join base tail ≠ [] := by simpa using h.1
  have hup : (Path.segments (Path.join base tail)).head? ≠ some Path.up := by simpa using h.2
  rw [Path.join_inside isName_sourceDir slash_not_mem_sourceDir hbase htail hne hup,
    ← ofList_inside_sourceDir h.1, String.toList_ofList]

namespace AliasEntry

theorem substitute?_inSource_eq_none {entry : AliasEntry} {specifier : String}
    (h : entry.substitute? specifier = none) : entry.inSource.substitute? specifier = none := by
  unfold substitute? at h ⊢
  rw [name_inSource, front_inSource]
  split at h
  · cases h
  · next hname =>
    rw [if_neg hname]
    simpa using h

theorem substitute?_inSource_eq_some {entry : AliasEntry} {specifier path : String}
    (hentry : Path.IsRelative entry.directory.toList)
    (h : entry.substitute? specifier = some path) (hpath : Path.StaysInside path) :
    entry.inSource.substitute? specifier = some (belowSource path) ∧
      Path.IsRelative path.toList := by
  unfold substitute? at h ⊢
  rw [name_inSource, front_inSource]
  split at h
  · next hname =>
    obtain rfl := Option.some.inj h
    exact ⟨by rw [if_pos hname, inSource, ofList_inside_sourceDir hpath.1], hentry⟩
  · next hname =>
    obtain ⟨rest, hrest, rfl⟩ := Option.map_eq_some_iff.1 h
    have htail := isRelative_dropWhile_isSlash rest
    rw [if_neg hname, hrest, Option.map_some, inSource, String.toList_ofList,
      ofList_join_inside hentry htail hpath, String.toList_ofList]
    exact ⟨rfl, Path.isRelative_join hentry htail⟩

end AliasEntry

theorem findSome?_substitute?_inSource {entries : List AliasEntry} (specifier : String)
    (hentries : ∀ entry ∈ entries, Path.IsRelative entry.directory.toList) :
    (entries.findSome? (·.substitute? specifier) = none →
      (entries.map AliasEntry.inSource).findSome? (·.substitute? specifier) = none) ∧
    ∀ path, entries.findSome? (·.substitute? specifier) = some path → Path.StaysInside path →
      (entries.map AliasEntry.inSource).findSome? (·.substitute? specifier) =
        some (belowSource path) ∧ Path.IsRelative path.toList := by
  induction entries with
  | nil => simp
  | cons entry entries ih =>
    have ih := ih fun other hother => hentries other (List.mem_cons_of_mem _ hother)
    rw [List.map_cons, List.findSome?_cons, List.findSome?_cons]
    cases hsub : entry.substitute? specifier with
    | none =>
      rw [AliasEntry.substitute?_inSource_eq_none hsub]
      exact ih
    | some path =>
      refine ⟨fun h => (by cases h), fun other hother hinside => ?_⟩
      obtain rfl := Option.some.inj hother
      have hentry := hentries entry List.mem_cons_self
      obtain ⟨hsome, hrel⟩ := AliasEntry.substitute?_inSource_eq_some hentry hsub hinside
      rw [hsome]
      exact ⟨rfl, hrel⟩

namespace Specifier

open AliasTable in
/-- A candidate of the flat layout stands below `src/` in the other one, unless it starts at the
root of the file tree. -/
theorem candidate_withSourceRoot {settings : AliasSettings} (hflat : settings.sourceRoot = false)
    {key specifier : String} (hkey : Path.IsNormal key)
    (hpath : Path.StaysInside (candidate (ofSettings settings) key specifier)) :
    let path := candidate (ofSettings settings) key specifier
    let moved := candidate (ofSettings settings.withSourceRoot) (belowSource key) specifier
    Path.IsRelative path.toList ∧ moved = belowSource path ∨
      ¬ Path.IsRelative path.toList ∧ moved = path := by
  intro path moved
  have hroot : (ofSettings settings).root.toList = [] := by
    simp [ofSettings, AliasSettings.root, hflat]
  have hmoved : (ofSettings settings.withSourceRoot).root.toList = Path.inside sourceDir [] := rfl
  have hentries := findSome?_substitute?_inSource specifier
    fun _ hentry => isRelative_of_mem_entries hflat hentry
  simp only [path, moved, candidate, hroot, hmoved, entries_withSourceRoot hflat,
    Path.key_of_isNormal hkey, Path.key_of_isNormal (isNormal_belowSource hkey),
    directory_belowSource hkey] at hpath ⊢
  by_cases hrel : isRelative specifier.toList = true
  · simp only [hrel, if_true] at hpath ⊢
    have hbase := Path.isRelative_directory fun seg hseg => (hkey.2 seg hseg).1
    have htail := isRelative_dropWhile_isSlash specifier.toList
    refine .inl ⟨?_, ofList_join_inside hbase htail hpath⟩
    rw [String.toList_ofList]
    exact Path.isRelative_join hbase htail
  · simp only [hrel, if_false, Bool.false_eq_true] at hpath ⊢
    cases hsome : (ofSettings settings).entries.findSome? (·.substitute? specifier) with
    | some found =>
      simp only [hsome] at hpath ⊢
      obtain ⟨hfound, hfoundRel⟩ := hentries.2 found hsome hpath
      rw [hfound]
      exact .inl ⟨hfoundRel, rfl⟩
    | none =>
      simp only [hsome, hentries.1 hsome] at hpath ⊢
      by_cases htail : Path.IsRelative (dropMark specifier.toList)
      · have hbase : Path.IsRelative [] := by simp [Path.IsRelative]
        refine .inl ⟨?_, ofList_join_inside hbase htail hpath⟩
        rw [String.toList_ofList]
        exact Path.isRelative_join hbase htail
      · obtain ⟨rest, hrest⟩ := List.head?_eq_some_iff.1 (not_not.1 htail)
        obtain ⟨found, hfound, hflatFound⟩ := Path.exists_join_cons (Path.inside sourceDir []) rest
        rw [hrest, hfound, hflatFound, String.toList_ofList]
        exact .inr ⟨fun h => h rfl, rfl⟩

end Specifier

end RegistryBlock
