import RegistryBlock.Proofs.Layout.Candidate
import RegistryBlock.Proofs.Path.Names

/-!
# Aliases and the catch-all

The name of an alias spells the directory that it stands for, so a specifier that goes on behind an
alias denotes what the alias `@` for all sources makes of it, whichever alias is tried first. An
alias alone denotes its directory as the settings write it; that is the same place as well if the
directory is a row of names.
-/

namespace RegistryBlock

/-- Whether each alias that begins with `@/` goes on with nothing or a row of names, but for slashes
at the ends. -/
def AliasSettings.HasNormalAliases (settings : AliasSettings) : Prop :=
  ∀ slot value rest, settings.get? slot = some value → value.toList = "@/".toList ++ rest →
    Text.trimBy isSlash rest = [] ∨
      ∀ seg ∈ Path.segments (Text.trimBy isSlash rest), Path.IsName seg

theorem aliasPath?_eq_some_iff {value : String} {path : List Char} :
    aliasPath? value = some path ↔ path ≠ [] ∧
      ∃ rest, value.toList = "@/".toList ++ rest ∧ Text.trimBy isSlash rest = path := by
  unfold aliasPath?
  constructor
  · intro h
    split at h
    · next c cs htrim =>
      obtain rfl := Option.some.inj h
      obtain ⟨rest, hrest, htrim⟩ := Option.map_eq_some_iff.1 htrim
      exact ⟨List.cons_ne_nil c cs, rest, Text.dropFront?_eq_some_iff.1 hrest, htrim⟩
    · cases h
  · rintro ⟨hne, rest, hrest, rfl⟩
    rw [Text.dropFront?_eq_some_iff.2 hrest, Option.map_some]
    split
    · next c cs htrim => rw [Option.some.inj htrim]
    · next hnone =>
      obtain ⟨c, cs, hcons⟩ := List.exists_cons_of_ne_nil hne
      exact absurd (congrArg some hcons) (hnone c cs)

theorem AliasSettings.hasNormalAliases_iff {settings : AliasSettings} :
    settings.HasNormalAliases ↔ ∀ value ∈ settings.values, ∀ path ∈ aliasPath? value,
      ∀ seg ∈ Path.segments path, Path.IsName seg := by
  constructor
  · intro h value hvalue path hpath
    obtain ⟨hne, rest, hrest, rfl⟩ := aliasPath?_eq_some_iff.1 hpath
    obtain ⟨slot, -, hslot⟩ := List.mem_filterMap.1 hvalue
    exact (h slot value rest hslot hrest).resolve_left hne
  · intro h slot value rest hslot hrest
    have hvalue : value ∈ settings.values :=
      List.mem_filterMap.2 ⟨slot, by cases slot <;> decide, hslot⟩
    refine or_iff_not_imp_left.2 fun hne => h value hvalue _ ?_
    exact aliasPath?_eq_some_iff.2 ⟨hne, rest, hrest, rfl⟩

instance (settings : AliasSettings) : Decidable settings.HasNormalAliases :=
  decidable_of_iff _ AliasSettings.hasNormalAliases_iff.symm

def AliasEntry.catchAll (settings : AliasSettings) : AliasEntry := ⟨"@", settings.root⟩

def AliasTable.catchAll (settings : AliasSettings) : AliasTable :=
  { entries := [.catchAll settings], root := settings.root }

/-! ### The directory of the sources -/

namespace Path

/-- Slashes at the front make no difference to a walk. -/
theorem walk_segments_dropWhile_isSlash (front : List Segment) (cs : List Char) :
    walk false (front ++ segments (cs.dropWhile isSlash)) =
      walk false (front ++ segments cs) := by
  induction cs with
  | nil => rfl
  | cons c cs ih =>
    by_cases hc : isSlash c = true
    · obtain rfl : c = '/' := by simpa [isSlash] using hc
      have hsegments : segments ('/' :: cs) = [] :: segments cs := rfl
      rw [List.dropWhile_cons_of_pos hc, ih, hsegments, walk_append_nil_segment]
    · rw [List.dropWhile_cons_of_neg hc]

end Path

theorem dropWhile_isSlash_of_isRelative {cs : List Char} (h : Path.IsRelative cs) :
    cs.dropWhile isSlash = cs := by
  cases cs with
  | nil => rfl
  | cons c cs => exact List.dropWhile_cons_of_neg (by simpa [isSlash, Path.IsRelative] using h)

namespace AliasSettings

variable (settings : AliasSettings)

theorem isRelative_root : Path.IsRelative settings.root.toList := by
  unfold root
  split <;> simp [Path.IsRelative]

theorem isRelative_rootFront_append {path : List Char} (h : Path.IsRelative path) :
    Path.IsRelative (settings.rootFront.toList ++ path) := by
  unfold rootFront
  split
  · simp [Path.IsRelative]
  · simpa using h

theorem walk_rootFront_append (path : List Char) (rest : List Path.Segment) :
    Path.walk false (Path.segments (settings.rootFront.toList ++ path) ++ rest) =
      Path.walk false (Path.segments settings.root.toList ++ (Path.segments path ++ rest)) := by
  unfold rootFront root
  split
  · have hfront : "src/".toList ++ path = "src".toList ++ '/' :: path := rfl
    rw [hfront, Path.segments_append_cons, List.append_assoc]
  · exact (Path.walk_append_nil_segment false [] _).symm

theorem forall_isName_rootFront_append_iff {path : List Char} :
    (∀ seg ∈ Path.segments (settings.rootFront.toList ++ path), Path.IsName seg) ↔
      ∀ seg ∈ Path.segments path, Path.IsName seg := by
  unfold rootFront
  split
  · have hfront : "src/".toList ++ path = sourceDir ++ '/' :: path := rfl
    have hsource : Path.segments sourceDir = [sourceDir] := by decide
    rw [hfront, Path.segments_append_cons, hsource, List.singleton_append, List.forall_mem_cons,
      and_iff_right isName_sourceDir]
  · rfl

/-- A row of names lies in the directory of the sources as it is written. -/
theorem join_root_of_names {path : List Char} (h : ∀ seg ∈ Path.segments path, Path.IsName seg) :
    Path.join settings.root.toList path = settings.rootFront.toList ++ path := by
  have hrel : Path.IsRelative path := Path.isRelative_of_segments fun seg hseg => (h seg hseg).1
  have hwalk := settings.walk_rootFront_append path []
  rw [List.append_nil, List.append_nil] at hwalk
  rw [Path.join_eq settings.isRelative_root hrel, ← hwalk,
    Path.walk_of_names false (settings.forall_isName_rootFront_append_iff.2 h),
    Path.ofSegments_segments]

/-- What lies behind a directory lies behind it in the directory of the sources. -/
theorem join_root_append {path : List Char} (h : Path.IsRelative path) (hne : path ≠ [])
    (rest : List Char) :
    Path.join settings.root.toList (path ++ '/' :: rest) =
      Path.join (settings.rootFront.toList ++ path) (rest.dropWhile isSlash) := by
  rw [Path.join_eq settings.isRelative_root (Path.isRelative_append h hne _),
    Path.join_eq (settings.isRelative_rootFront_append h) (isRelative_dropWhile_isSlash rest),
    Path.walk_segments_dropWhile_isSlash, walk_rootFront_append, Path.segments_append_cons]

end AliasSettings

/-! ### Entries -/

namespace AliasEntry

/-- Whether the entry is an alias of the settings whose name spells `path`, and stands for `path`
below the sources. -/
structure IsAlias (settings : AliasSettings) (entry : AliasEntry) (path : List Char) : Prop where
  declared : ∃ value ∈ settings.values, aliasPath? value = some path
  name : ∃ tail, entry.name.toList = "@/".toList ++ tail ∧ tail.dropWhile isSlash = path
  front : entry.front = entry.name.toList ++ ['/']
  directory : entry.directory.toList = settings.rootFront.toList ++ path

variable {settings : AliasSettings} {entry : AliasEntry} {path : List Char}

theorem IsAlias.ne_nil (h : entry.IsAlias settings path) : path ≠ [] := by
  obtain ⟨value, -, hpath⟩ := h.declared
  exact (isRelative_of_aliasPath?_eq_some hpath).1

theorem IsAlias.isRelative (h : entry.IsAlias settings path) : Path.IsRelative path := by
  obtain ⟨value, -, hpath⟩ := h.declared
  exact (isRelative_of_aliasPath?_eq_some hpath).2

theorem front_eq {c : Char} (hc : isSlash c = false) (h : entry.name.toList.getLast? = some c) :
    entry.front = entry.name.toList ++ ['/'] := by
  obtain ⟨cs, hname⟩ := List.getLast?_eq_some_iff.1 h
  have hne : '/' ≠ c := fun he => by simp [← he, isSlash] at hc
  have hend : Text.endsWith ['/'] entry.name.toList = false := by
    simp [hname, Text.endsWith, Text.startsWith, Text.dropFront?, hne]
  rw [front, if_neg (by simp [hend])]

theorem exists_isAlias {value : String} (hvalue : value ∈ settings.values)
    (h : AliasTable.ofAlias? settings value = some entry) :
    ∃ path, entry.IsAlias settings path := by
  obtain ⟨path, hpath, rfl⟩ := Option.map_eq_some_iff.1 h
  obtain ⟨hne, rest, hrest, htrim⟩ := aliasPath?_eq_some_iff.1 hpath
  have htail : (Text.dropEndWhile isSlash rest).dropWhile isSlash = path := by
    rw [Text.dropWhile_dropEndWhile, htrim]
  have hnonempty : Text.dropEndWhile isSlash rest ≠ [] := fun hnil =>
    hne (by rw [← htail, hnil, List.dropWhile_nil])
  have hname : Text.dropEndWhile isSlash value.toList =
      "@/".toList ++ Text.dropEndWhile isSlash rest := by
    rw [hrest, Text.dropEndWhile_append hnonempty]
  refine ⟨path, ⟨value, hvalue, hpath⟩, ⟨_, ?_, htail⟩, ?_, ?_⟩
  · rw [String.toList_ofList, hname]
  · have hlast := List.getLast?_eq_some_getLast hnonempty
    refine front_eq (Text.getLast?_dropEndWhile hlast) ?_
    rw [String.toList_ofList, hname, List.getLast?_append, hlast, Option.some_or]
  · rw [String.toList_append, String.toList_ofList]

/-- A specifier that uses an alias is the alias, or goes on behind it with a slash. -/
theorem IsAlias.of_substitute? (h : entry.IsAlias settings path) {specifier found : String}
    (hfound : entry.substitute? specifier = some found) :
    specifier = entry.name ∧ found = entry.directory ∨
      ∃ rest, specifier.toList = entry.name.toList ++ '/' :: rest ∧
        found = String.ofList (Path.join entry.directory.toList (rest.dropWhile isSlash)) := by
  unfold substitute? at hfound
  split at hfound
  · next hname => exact .inl ⟨hname, (Option.some.inj hfound).symm⟩
  · obtain ⟨rest, hrest, rfl⟩ := Option.map_eq_some_iff.1 hfound
    rw [Text.dropFront?_eq_some_iff, h.front, List.append_assoc] at hrest
    exact .inr ⟨rest, hrest, rfl⟩

theorem front_catchAll : (catchAll settings).front = "@/".toList := by
  simp [front, catchAll, Text.endsWith, Text.startsWith, Text.dropFront?]

theorem substitute?_catchAll {specifier : String} {tail : List Char}
    (h : specifier.toList = "@/".toList ++ tail) :
    (catchAll settings).substitute? specifier =
      some (String.ofList (Path.join settings.root.toList (tail.dropWhile isSlash))) := by
  have hne : specifier ≠ (catchAll settings).name := fun he => by simp [he, catchAll] at h
  rw [substitute?, if_neg hne, front_catchAll, Text.dropFront?_eq_some_iff.2 h]
  rfl

theorem substitute?_catchAll_eq_none {specifier : String}
    (h : specifier.toList.head? ≠ some '@') :
    (catchAll settings).substitute? specifier = none := by
  have hne : specifier ≠ (catchAll settings).name := fun he => by simp [he, catchAll] at h
  rw [substitute?, if_neg hne, front_catchAll, Option.map_eq_none_iff,
    Option.eq_none_iff_forall_ne_some]
  intro rest hrest
  rw [Text.dropFront?_eq_some_iff.1 hrest] at h
  exact h rfl

/-- What a specifier denotes through an alias it denotes through the alias for all sources, unless
it is the alias alone and the directory of the alias is not written in normal form. -/
theorem IsAlias.substitute?_catchAll (h : entry.IsAlias settings path) {specifier found : String}
    (hfound : entry.substitute? specifier = some found)
    (hexact : entry.name = specifier → ∀ seg ∈ Path.segments path, Path.IsName seg) :
    (catchAll settings).substitute? specifier = some found := by
  obtain ⟨tail, hname, htail⟩ := h.name
  rcases h.of_substitute? hfound with ⟨rfl, rfl⟩ | ⟨rest, hspecifier, rfl⟩
  · rw [AliasEntry.substitute?_catchAll hname, htail, settings.join_root_of_names (hexact rfl),
      ← h.directory, String.ofList_toList]
  · have hrest : (tail ++ '/' :: rest).dropWhile isSlash = path ++ '/' :: rest := by
      rw [List.dropWhile_append, htail, if_neg (by simpa using h.ne_nil)]
    rw [hname, List.append_assoc] at hspecifier
    rw [AliasEntry.substitute?_catchAll hspecifier, hrest,
      settings.join_root_append h.isRelative h.ne_nil, h.directory]

/-- Such a directory is written differently than the alias for all sources would have it. -/
example :
    AliasTable.ofAlias? {} "@/./ui" = some ⟨"@/./ui", "./ui"⟩ ∧
      (AliasEntry.mk "@/./ui" "./ui").substitute? "@/./ui" = some "./ui" ∧
      (catchAll {}).substitute? "@/./ui" = some "ui" := by
  decide +kernel

end AliasEntry

/-! ### Tables -/

/-- The first result of a search is that of an element which agrees with every other result. -/
theorem findSome?_eq_of_forall {α β : Type} {f : α → Option β} {a : α} {l : List α} (ha : a ∈ l)
    (h : ∀ b ∈ l, ∀ c, f b = some c → f a = some c) : l.findSome? f = f a := by
  cases hl : l.findSome? f with
  | none => exact (List.findSome?_eq_none_iff.1 hl a ha).symm
  | some c =>
    obtain ⟨b, hb, hc⟩ := List.exists_of_findSome?_eq_some hl
    exact (h b hb c hc).symm

namespace Specifier

open AliasTable

/-- The aliases of the settings do not change what a specifier denotes, unless it is one of them and
the directory of that alias is not written in normal form. -/
theorem candidate_eq_catchAll {settings : AliasSettings} {specifier : String}
    (h : ∀ (entry : AliasEntry) (path : List Char), entry.IsAlias settings path →
      entry.name = specifier → ∀ seg ∈ Path.segments path, Path.IsName seg) (importer : String) :
    candidate (ofSettings settings) importer specifier =
      candidate (.catchAll settings) importer specifier := by
  have hmem : AliasEntry.catchAll settings ∈ (ofSettings settings).entries :=
    List.mem_mergeSort.2 (List.mem_append_right _ (List.mem_singleton_self _))
  have hfind : (ofSettings settings).entries.findSome? (·.substitute? specifier) =
      (AliasEntry.catchAll settings).substitute? specifier := by
    refine findSome?_eq_of_forall hmem fun entry hentry found hfound => ?_
    have hentry : entry ∈ unsorted settings := List.mem_mergeSort.1 hentry
    rw [unsorted, List.mem_append, List.mem_filterMap] at hentry
    rcases hentry with ⟨value, hvalue, hentry⟩ | hentry
    · obtain ⟨path, halias⟩ := AliasEntry.exists_isAlias hvalue hentry
      exact halias.substitute?_catchAll hfound (h entry path halias)
    · rwa [List.mem_singleton.1 hentry] at hfound
  have hone : (AliasTable.catchAll settings).entries.findSome? (·.substitute? specifier) =
      (AliasEntry.catchAll settings).substitute? specifier := by
    simp [AliasTable.catchAll]
  simp only [candidate, hfind, hone]
  rfl

/-- The aliases of the settings resolve every specifier as the one alias for all sources does, if
what they stand for is written in normal form. -/
theorem leads_as_catchAll {settings : AliasSettings} (h : settings.HasNormalAliases)
    (known : String → Bool) (importer specifier : String) :
    target? (ofSettings settings) known importer specifier =
      target? (.catchAll settings) known importer specifier := by
  have hcandidate : candidate (ofSettings settings) importer specifier =
      candidate (.catchAll settings) importer specifier := by
    refine candidate_eq_catchAll (fun entry path halias _ => ?_) importer
    obtain ⟨value, hvalue, hpath⟩ := halias.declared
    exact AliasSettings.hasNormalAliases_iff.1 h value hvalue path hpath
  simp only [target?, hcandidate]

theorem leads_as_catchAll_button :
    let settings : AliasSettings :=
      { components := "@/components", utils := "@//lib/utils", ui := "@/components/ui/",
        lib := "@/", hooks := "~/hooks", sourceRoot := true }
    let known := fun path => decide (path = "src/components/ui/button.tsx")
    settings.HasNormalAliases ∧
      target? (ofSettings settings) known "src/app/page.tsx" "@/components/ui//../ui/button" =
        some "src/components/ui/button.tsx" ∧
      target? (.catchAll settings) known "src/app/page.tsx" "@/components/ui//../ui/button" =
        some "src/components/ui/button.tsx" := by
  intro settings known
  have hnormal : settings.HasNormalAliases := by decide +kernel
  have htarget : target? (.catchAll settings) known "src/app/page.tsx"
      "@/components/ui//../ui/button" = some "src/components/ui/button.tsx" := by decide +kernel
  exact ⟨hnormal, (leads_as_catchAll hnormal known _ _).trans htarget, htarget⟩

end Specifier

end RegistryBlock
