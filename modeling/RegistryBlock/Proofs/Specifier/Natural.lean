import RegistryBlock.Proofs.Alias.CatchAll
import RegistryBlock.Proofs.Layout.Target

/-!
# Specifiers of known files

A known file is reached from every file of the project by the way that leads to it, up to a
directory above both and down again, and by its path below the sources behind `@/` or `~/`. No
alias of the settings stands in between, whatever it is.
-/

namespace RegistryBlock

theorem Path.IsNormal.staysInside {path : String} (h : Path.IsNormal path) :
    Path.StaysInside path :=
  ⟨h.ne_empty, fun hup => (h.2 _ (List.mem_of_head? hup)).2.2 rfl⟩

namespace Specifier

/-- A specifier that denotes a known file leads to it. -/
theorem target?_of_candidate_eq {table : AliasTable} {known : String → Bool}
    {importer specifier path : String} (h : candidate table importer specifier = path)
    (hpath : Path.IsNormal path) (hknown : known path = true) :
    target? table known importer specifier = some path := by
  rw [target?_eq_find? table known (h.symm ▸ hpath.staysInside), h, variants, List.cons_append]
  exact List.find?_cons_of_pos hknown

/-! ### From file to file -/

/-- The specifier that climbs out of the directories `down` and goes on with `rest`: one `../` for
each of the directories, or `./` if there is none, and then `rest`. -/
def between (down rest : List Path.Segment) : String :=
  String.ofList ((Path.climb down).flatMap (· ++ ['/']) ++ Path.ofSegments rest)

theorem exists_toList_between (down rest : List Path.Segment) :
    ∃ cs, (between down rest).toList = '.' :: cs := by
  rw [between, String.toList_ofList, Path.climb]
  cases down with
  | nil => exact ⟨_, rfl⟩
  | cons seg down => exact ⟨_, rfl⟩

theorem segments_between (down rest : List Path.Segment) :
    Path.segments (between down rest).toList =
      Path.climb down ++ Path.segments (Path.ofSegments rest) := by
  rw [between, String.toList_ofList]
  exact Text.split_flatMap_append (fun _ => Path.slash_not_mem_of_mem_climb) _

theorem walk_between {common down rest : List Path.Segment}
    (hdown : ∀ seg ∈ common ++ down, Path.IsName seg ∧ '/' ∉ seg)
    (hrest : ∀ seg ∈ common ++ rest, Path.IsName seg ∧ '/' ∉ seg) :
    Path.walk false (Path.segments (Path.ofSegments (common ++ down)) ++
      Path.segments (between down rest).toList) = common ++ rest := by
  calc Path.walk false (Path.segments (Path.ofSegments (common ++ down)) ++
        Path.segments (between down rest).toList)
      = Path.walk false (common ++ down ++
          (Path.climb down ++ Path.segments (Path.ofSegments rest))) := by
        rw [segments_between]
        exact Path.walk_segments_ofSegments false (fun seg hseg => (hdown seg hseg).2) [] _
    _ = Path.walk false (common ++ Path.segments (Path.ofSegments rest)) :=
        Path.walk_append_climb false
          (fun seg hseg => (hdown seg (List.mem_append_right _ hseg)).1) _ _
    _ = Path.walk false (common ++ rest) := by
        have hslash : ∀ seg ∈ rest, '/' ∉ seg := fun seg hseg =>
          (hrest seg (List.mem_append_right _ hseg)).2
        simpa using Path.walk_segments_ofSegments false hslash common []
    _ = common ++ rest := Path.walk_of_names false fun seg hseg => (hrest seg hseg).1

/-- The way between two files, seen from the first, denotes the second. -/
theorem candidate_between (table : AliasTable) {importer path : String}
    (himporter : Path.IsNormal importer) (hpath : Path.IsNormal path)
    {common down rest : List Path.Segment} {name : Path.Segment}
    (hfrom : Path.segments importer.toList = common ++ down ++ [name])
    (hto : Path.segments path.toList = common ++ rest) :
    candidate table importer (between down rest) = path := by
  have hnames : ∀ seg ∈ Path.segments importer.toList, seg ≠ [] := fun seg hseg =>
    (himporter.2 seg hseg).1
  have hdir : Path.directory importer.toList = Path.ofSegments (common ++ down) := by
    rw [Path.directory_eq hnames, hfrom, List.dropLast_concat]
  have hdown : ∀ seg ∈ common ++ down, Path.IsName seg ∧ '/' ∉ seg := by
    intro seg hseg
    have hmem : seg ∈ Path.segments importer.toList := hfrom ▸ List.mem_append_left _ hseg
    exact ⟨himporter.2 seg hmem, Path.slash_not_mem_of_mem_segments hmem⟩
  have hrest : ∀ seg ∈ common ++ rest, Path.IsName seg ∧ '/' ∉ seg := by
    rw [← hto]
    exact fun seg hseg => ⟨hpath.2 seg hseg, Path.slash_not_mem_of_mem_segments hseg⟩
  obtain ⟨cs, hcs⟩ := exists_toList_between down rest
  have hrelative : isRelative (between down rest).toList = true := by simp [hcs, isRelative]
  have htail : Path.IsRelative (between down rest).toList := by simp [hcs, Path.IsRelative]
  rw [candidate, if_pos hrelative, dropWhile_isSlash_of_isRelative htail,
    Path.key_of_isNormal himporter, Path.join_eq (Path.isRelative_directory hnames) htail, hdir,
    walk_between hdown hrest, ← hto, Path.ofSegments_segments, String.ofList_toList]

/-! ### From the sources -/

variable {settings : AliasSettings}

theorem candidate_catchAll_at (importer inner : String) :
    candidate (.catchAll settings) importer ("@/" ++ inner) =
      String.ofList (Path.join settings.root.toList (inner.toList.dropWhile isSlash)) := by
  have hlist : ("@/" ++ inner).toList = "@/".toList ++ inner.toList := String.toList_append ..
  have hrelative : isRelative ("@/" ++ inner).toList = false := by simp [hlist, isRelative]
  have hfind : (AliasTable.catchAll settings).entries.findSome? (·.substitute? ("@/" ++ inner)) =
      some (String.ofList (Path.join settings.root.toList (inner.toList.dropWhile isSlash))) := by
    simp [AliasTable.catchAll, AliasEntry.substitute?_catchAll hlist]
  simp only [candidate, hrelative, hfind, Bool.false_eq_true, if_false]

theorem candidate_catchAll_home (importer inner : String) :
    candidate (.catchAll settings) importer ("~/" ++ inner) =
      String.ofList (Path.join settings.root.toList inner.toList) := by
  have hlist : ("~/" ++ inner).toList = '~' :: '/' :: inner.toList := String.toList_append ..
  have hrelative : isRelative ("~/" ++ inner).toList = false := by simp [hlist, isRelative]
  have hfind : (AliasTable.catchAll settings).entries.findSome? (·.substitute? ("~/" ++ inner)) =
      none := by
    have hhead : ("~/" ++ inner).toList.head? ≠ some '@' := by simp [hlist]
    simp [AliasTable.catchAll, AliasEntry.substitute?_catchAll_eq_none hhead]
  have hmark : dropMark ("~/" ++ inner).toList = inner.toList := by rw [hlist, dropMark]
  simp only [candidate, hrelative, hfind, hmark, Bool.false_eq_true, if_false]
  rfl

theorem candidate_natural {path inner : String} (hpath : Path.IsNormal path)
    (hinner : path = settings.rootFront ++ inner) (importer : String) :
    candidate (.ofSettings settings) importer ("@/" ++ inner) = path ∧
      candidate (.ofSettings settings) importer ("~/" ++ inner) = path := by
  have hlist : path.toList = settings.rootFront.toList ++ inner.toList := by
    rw [hinner, String.toList_append]
  have hnames : ∀ seg ∈ Path.segments inner.toList, Path.IsName seg :=
    settings.forall_isName_rootFront_append_iff.1 (hlist ▸ hpath.2)
  have hjoin : String.ofList (Path.join settings.root.toList inner.toList) = path := by
    rw [settings.join_root_of_names hnames, ← hlist, String.ofList_toList]
  have hdrop : inner.toList.dropWhile isSlash = inner.toList :=
    dropWhile_isSlash_of_isRelative
      (Path.isRelative_of_segments fun seg hseg => (hnames seg hseg).1)
  constructor
  · have hexact : ∀ (entry : AliasEntry) (dir : List Char), entry.IsAlias settings dir →
        entry.name = "@/" ++ inner → ∀ seg ∈ Path.segments dir, Path.IsName seg := by
      intro entry dir halias hname
      obtain ⟨tail, hspelled, htail⟩ := halias.name
      rw [hname, String.toList_append, List.append_cancel_left_eq] at hspelled
      rwa [← htail, ← hspelled, hdrop]
    rw [candidate_eq_catchAll hexact, candidate_catchAll_at, hdrop, hjoin]
  · have hexact : ∀ (entry : AliasEntry) (dir : List Char), entry.IsAlias settings dir →
        entry.name = "~/" ++ inner → ∀ seg ∈ Path.segments dir, Path.IsName seg := by
      intro entry dir halias hname
      obtain ⟨tail, hspelled, -⟩ := halias.name
      rw [hname, String.toList_append] at hspelled
      cases hspelled
    rw [candidate_eq_catchAll hexact, candidate_catchAll_home, hjoin]

/-! ### Every known file -/

/-- Every known file can be imported from every file: by the way from one to the other over each
directory above both, and by its path below the sources behind `@/` and `~/`. -/
theorem leads_to_known (settings : AliasSettings) {known : String → Bool} {path : String}
    (hknown : known path = true) (hpath : Path.IsNormal path) {importer : String}
    (himporter : Path.IsNormal importer) :
    (∀ common down rest name, Path.segments importer.toList = common ++ down ++ [name] →
      Path.segments path.toList = common ++ rest →
      target? (.ofSettings settings) known importer (between down rest) = some path) ∧
    ∀ inner, path = settings.rootFront ++ inner →
      target? (.ofSettings settings) known importer ("@/" ++ inner) = some path ∧
      target? (.ofSettings settings) known importer ("~/" ++ inner) = some path := by
  constructor
  · intro common down rest name hfrom hto
    exact target?_of_candidate_eq (candidate_between _ himporter hpath hfrom hto) hpath hknown
  · intro inner hinner
    obtain ⟨hat, hhome⟩ := candidate_natural hpath hinner importer
    exact ⟨target?_of_candidate_eq hat hpath hknown, target?_of_candidate_eq hhome hpath hknown⟩

theorem leads_to_known_format :
    let settings : AliasSettings :=
      { components := "@//lib", utils := "@/lib/../lib", ui := "@/lib/format.ts/", lib := "@/lib",
        hooks := "@/./lib", sourceRoot := true }
    let known := fun path => decide (path ∈ ["src/lib/format.ts", "src/lib/format.ts.tsx"])
    between ["app".toList, "shop".toList] ["lib".toList, "format.ts".toList] =
        "../../lib/format.ts" ∧
      target? (.ofSettings settings) known "src/app/shop/page.tsx" "../../lib/format.ts" =
        some "src/lib/format.ts" ∧
      target? (.ofSettings settings) known "src/app/shop/page.tsx" "@/lib/format.ts" =
        some "src/lib/format.ts" ∧
      target? (.ofSettings settings) known "src/app/shop/page.tsx" "~/lib/format.ts" =
        some "src/lib/format.ts" := by
  intro settings known
  have hway : between ["app".toList, "shop".toList] ["lib".toList, "format.ts".toList] =
      "../../lib/format.ts" := by decide
  have hpath : Path.IsNormal "src/lib/format.ts" := by decide
  have himporter : Path.IsNormal "src/app/shop/page.tsx" := by decide
  have hknown : known "src/lib/format.ts" = true := by decide
  obtain ⟨hbetween, hsources⟩ := leads_to_known settings hknown hpath himporter
  exact ⟨hway, hway ▸ hbetween ["src".toList] _ _ "page.tsx".toList (by decide) (by decide),
    hsources "lib/format.ts" (by decide)⟩

end Specifier

end RegistryBlock
