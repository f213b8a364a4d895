import Mathlib.Data.List.Nodup
import Mathlib.Data.List.Pairwise
import RegistryBlock.Proofs.Layout.Block
import RegistryBlock.Proofs.Layout.Place

/-!
# Collisions in a block

Two files of a block collide if their entries have the same path or are installed at the same
target. Taking the source root away is the only thing that can bring them together: an exact
condition says when it does for paths, and another one when it does for targets. A style sheet keeps
its whole place in its target and collides with nothing.
-/

namespace RegistryBlock

/-! ### Targets -/

namespace Placement

/-- Whether a path is that of data, of text or of an environment. -/
def isData (path : String) : Bool :=
  Text.startsWith ".env".toList (Path.baseName path.toList) ||
    String.ofList (Path.extension path.toList) ∈ dataExtensions

/-- What the target of a file begins with, unless the file is a style sheet. Pages stay in the item,
and so do files other than data. -/
def targetFront? : Role → Bool → Option String
  | .page, _ => some "./"
  | .file, data => some (if data then "~/" else "./")
  | _, _ => none

theorem targetFront?_of_aliasRole?_eq_some {settings : AliasSettings} {path : List Char}
    {role : Role} (h : aliasRole? settings path = some role) (data : Bool) :
    role ≠ .style ∧ targetFront? role data = none := by
  obtain ⟨⟨slot, other⟩, hmem, hfound⟩ := List.exists_of_findSome?_eq_some h
  have hroles : ∀ entry ∈ aliasRoles, entry.2 ≠ .style ∧ targetFront? entry.2 data = none := by
    cases data <;> decide
  obtain rfl : other = role := by
    dsimp only at hfound
    split at hfound
    · split at hfound
      · exact Option.some.inj hfound
      · cases hfound
    · cases hfound
  exact hroles _ hmem

/-- Where a file of the given place is installed: as a style sheet under its whole place, or without
the source root and where its role says. Only a page has the extension of a style sheet and is
installed as something else. -/
theorem target_cases {settings : AliasSettings} {key : String} {fromSourceRoot : Bool}
    {placement : Placement} (h : ofKey settings key fromSourceRoot = placement) :
    (placement.role = .style ∧ String.ofList (Path.extension key.toList) ∈ styleExtensions ∧
        placement.target = some ((if fromSourceRoot then "./" else "~/") ++ key)) ∨
      (placement.role ≠ .style ∧
        placement.target =
          (targetFront? placement.role (isData key)).map (· ++ withoutSource key) ∧
        (placement.target ≠ none → String.ofList (Path.extension key.toList) ∈ styleExtensions →
          Text.startsWith "app/".toList key.toList = true)) := by
  cases hrole : aliasRole? settings key.toList with
  | some role =>
    simp only [ofKey, hrole] at h
    obtain ⟨hstyle, hfront⟩ := targetFront?_of_aliasRole?_eq_some hrole (isData key)
    subst h
    exact Or.inr ⟨hstyle, by simp [hfront], fun hsome => absurd rfl hsome⟩
  | none =>
    simp only [ofKey, hrole] at h
    split_ifs at h with happ htheme hstyle hsource hdata hcomponent <;> subst h
    · exact Or.inr ⟨by simp, rfl, fun _ _ => happ⟩
    · exact Or.inr ⟨by simp, rfl, fun hsome => absurd rfl hsome⟩
    · exact Or.inl ⟨rfl, hstyle, by simp [hsource, inItem]⟩
    · exact Or.inl ⟨rfl, hstyle, by simp [hsource, inProject]⟩
    · refine Or.inr ⟨by simp, ?_, fun _ hextension => absurd hextension hstyle⟩
      have hdata : isData key = true := hdata
      simp [targetFront?, hdata, inProject, withoutSource]
    · exact Or.inr ⟨by simp, rfl, fun hsome => absurd rfl hsome⟩
    · refine Or.inr ⟨by simp, ?_, fun _ hextension => absurd hextension hstyle⟩
      have hdata : isData key = false := Bool.eq_false_iff.2 hdata
      simp [targetFront?, hdata, inItem, withoutSource]

theorem mem_fronts_of_targetFront?_eq_some {role : Role} {data : Bool} {front : String}
    (h : targetFront? role data = some front) : front ∈ ["./", "~/"] := by
  cases role <;> cases data <;> simp_all [targetFront?]

end Placement

theorem append_inj_of_mem_fronts {front front' path path' : String}
    (hfront : front ∈ ["./", "~/"]) (hfront' : front' ∈ ["./", "~/"])
    (h : front ++ path = front' ++ path') : front = front' ∧ path = path' := by
  have hlength : ∀ text ∈ ["./", "~/"], text.toList.length = 2 := by decide
  rw [← String.toList_inj, String.toList_append, String.toList_append] at h
  have hsplit := List.append_inj h (by rw [hlength front hfront, hlength front' hfront'])
  exact ⟨String.toList_inj.1 hsplit.1, String.toList_inj.1 hsplit.2⟩

theorem extension_belowSource (path : String) :
    Path.extension (belowSource path).toList = Path.extension path.toList := by
  rw [toList_belowSource, Path.extension, Path.extension, baseName_append_cons]

theorem startsWith_app_belowSource (path : String) :
    Text.startsWith "app/".toList (belowSource path).toList = false := by
  rw [toList_belowSource]
  rfl

namespace Placement

variable {settings : AliasSettings} {key key' : String} {fromSourceRoot fromSourceRoot' : Bool}
  {target : String}

/-- A style sheet is installed under its whole place. -/
theorem target_of_isStyle (hstyle : (ofKey settings key fromSourceRoot).role = .style) :
    String.ofList (Path.extension key.toList) ∈ styleExtensions ∧
      (ofKey settings key fromSourceRoot).target =
        some ((if fromSourceRoot then "./" else "~/") ++ key) := by
  rcases target_cases (Eq.refl (ofKey settings key fromSourceRoot)) with
    ⟨-, hextension, htarget⟩ | ⟨hrole, -⟩
  · exact ⟨hextension, htarget⟩
  · exact absurd hstyle hrole

/-- Whatever else is installed has lost the source root. -/
theorem target_of_not_isStyle (hstyle : (ofKey settings key fromSourceRoot).role ≠ .style)
    (htarget : (ofKey settings key fromSourceRoot).target = some target) :
    (String.ofList (Path.extension key.toList) ∈ styleExtensions →
        Text.startsWith "app/".toList key.toList = true) ∧
      ∃ front, targetFront? (ofKey settings key fromSourceRoot).role (isData key) = some front ∧
        target = front ++ withoutSource key := by
  rcases target_cases (Eq.refl (ofKey settings key fromSourceRoot)) with
    ⟨hrole, -⟩ | ⟨-, hsome, hpage⟩
  · exact absurd hrole hstyle
  · rw [htarget, eq_comm, Option.map_eq_some_iff] at hsome
    obtain ⟨front, hfront, happend⟩ := hsome
    exact ⟨hpage (by simp [htarget]), front, hfront, happend.symm⟩

/-- What is no style sheet is not installed where a style sheet is: it would have to lie below the
source root, with the extension of a style sheet, and be a page. -/
theorem target_ne_of_isStyle (hstyle : (ofKey settings key fromSourceRoot).role = .style)
    (hother : (ofKey settings key' fromSourceRoot').role ≠ .style)
    (htarget : (ofKey settings key fromSourceRoot).target = some target) :
    (ofKey settings key' fromSourceRoot').target ≠ some target := by
  intro htarget'
  obtain ⟨hextension, hsome⟩ := target_of_isStyle hstyle
  obtain ⟨hpage, front, hfront, happend⟩ := target_of_not_isStyle hother htarget'
  rw [htarget, happend, Option.some_inj] at hsome
  have hkey : withoutSource key' = key :=
    (append_inj_of_mem_fronts (mem_fronts_of_targetFront?_eq_some hfront)
      (by split <;> simp) hsome).2
  rcases withoutSource_cases key' with hbelow | ⟨hsame, -⟩
  · rw [hbelow, hkey, extension_belowSource, startsWith_app_belowSource] at hpage
    exact Bool.false_ne_true (hpage hextension)
  · rw [hsame] at hkey
    subst hkey
    exact hother ((ofKey_agrees settings key' fromSourceRoot' fromSourceRoot).1.trans hstyle)

end Placement

namespace SourceFile

variable {settings : AliasSettings} {file other : SourceFile}

theorem target_ofSource (h : Path.IsNormal file.key) :
    (BlockFile.ofSource settings file).target = (file.placement settings).target := by
  rw [ofSource_eq h]

/-- Two style sheets are installed at different targets: if they have one place, one of them stays
in the item and the other one does not. -/
theorem target_ne_of_isStyle (hne : file.key ≠ other.key)
    (hfile : (file.placement settings).role = .style)
    (hother : (other.placement settings).role = .style) :
    (file.placement settings).target ≠ (other.placement settings).target := by
  intro heq
  rw [placement, placement, (Placement.target_of_isStyle hfile).2,
    (Placement.target_of_isStyle hother).2, Option.some_inj] at heq
  obtain ⟨hfront, hplace⟩ :=
    append_inj_of_mem_fronts (by split <;> simp) (by split <;> simp) heq
  apply isSource_ne_of_place_eq hne hplace
  cases hsource : file.isSource settings <;> cases hsource' : other.isSource settings <;>
    simp [hsource, hsource'] at hfront ⊢

def targetFront? (settings : AliasSettings) (file : SourceFile) : Option String :=
  Placement.targetFront? (file.placement settings).role (Placement.isData (file.place settings))

/-- Whether two files have one install path, and are both data, or both pages or other files. -/
structure SharesTarget (settings : AliasSettings) (file other : SourceFile) : Prop where
  installPath_eq : file.installPath settings = other.installPath settings
  targetFront?_eq : file.targetFront? settings = other.targetFront? settings
  isSome_targetFront? : (file.targetFront? settings).isSome = true

theorem not_sharesTarget_of_isStyle (h : (file.placement settings).role = .style) :
    ¬ file.SharesTarget settings other := by
  intro hshares
  have hsome := hshares.isSome_targetFront?
  rw [targetFront?, h] at hsome
  cases hsome

theorem SharesTarget.symm (h : file.SharesTarget settings other) :
    other.SharesTarget settings file :=
  ⟨h.installPath_eq.symm, h.targetFront?_eq.symm, h.targetFront?_eq ▸ h.isSome_targetFront?⟩

theorem target_placement_eq_some_iff (h : (file.placement settings).role ≠ .style)
    {target : String} :
    (file.placement settings).target = some target ↔
      ∃ front, file.targetFront? settings = some front ∧
        front ++ file.installPath settings = target := by
  rcases Placement.target_cases (Eq.refl (file.placement settings)) with
    ⟨hstyle, -⟩ | ⟨-, htarget, -⟩
  · exact absurd hstyle h
  · rw [htarget, Option.map_eq_some_iff]
    rfl

/-- Different files are installed at one target only if they are no style sheets and their places
agree without the source root. -/
theorem exists_target_iff (hfile : Path.IsNormal file.key) (hother : Path.IsNormal other.key)
    (hne : file.key ≠ other.key) :
    (∃ target, (BlockFile.ofSource settings file).target = some target ∧
        (BlockFile.ofSource settings other).target = some target) ↔
      file.SharesTarget settings other := by
  rw [target_ofSource hfile, target_ofSource hother]
  by_cases hstyle : (file.placement settings).role = .style <;>
    by_cases hstyle' : (other.placement settings).role = .style
  · refine iff_of_false ?_ (not_sharesTarget_of_isStyle hstyle)
    rintro ⟨target, htarget, htarget'⟩
    exact target_ne_of_isStyle hne hstyle hstyle' (htarget.trans htarget'.symm)
  · refine iff_of_false ?_ (not_sharesTarget_of_isStyle hstyle)
    rintro ⟨target, htarget, htarget'⟩
    exact Placement.target_ne_of_isStyle hstyle hstyle' htarget htarget'
  · refine iff_of_false ?_ fun hshares => not_sharesTarget_of_isStyle hstyle' hshares.symm
    rintro ⟨target, htarget, htarget'⟩
    exact Placement.target_ne_of_isStyle hstyle' hstyle htarget' htarget
  · simp only [target_placement_eq_some_iff hstyle, target_placement_eq_some_iff hstyle']
    constructor
    · rintro ⟨-, ⟨front, hfront, rfl⟩, front', hfront', happend⟩
      obtain ⟨rfl, hpath⟩ :=
        append_inj_of_mem_fronts (Placement.mem_fronts_of_targetFront?_eq_some hfront')
          (Placement.mem_fronts_of_targetFront?_eq_some hfront) happend
      exact ⟨hpath.symm, hfront.trans hfront'.symm, by simp [hfront]⟩
    · rintro ⟨hpath, hfronts, hsome⟩
      obtain ⟨front, hfront⟩ := Option.isSome_iff_exists.1 hsome
      exact ⟨_, ⟨front, hfront, rfl⟩, front, hfronts ▸ hfront, by rw [hpath]⟩

/-- Whether the key of a file is that of another one with `src/` in front of it, once or twice. -/
def LiesBelow (file other : SourceFile) : Prop :=
  file.key = belowSource other.key ∨ file.key = belowSource (belowSource other.key)

instance (file other : SourceFile) : Decidable (file.LiesBelow other) :=
  inferInstanceAs (Decidable (_ ∨ _))

theorem liesBelow_of_place_eq (hne : file.key ≠ other.key)
    (h : file.place settings = belowSource (other.place settings)) : file.LiesBelow other := by
  rcases key_eq_place_or settings file with hfile | hfile <;>
    rcases key_eq_place_or settings other with hother | hother
  · exact Or.inl (by rw [hfile, h, ← hother])
  · exact absurd (by rw [hfile, h, ← hother]) hne
  · exact Or.inr (by rw [hfile, h, ← hother])
  · exact Or.inl (by rw [hfile, h, ← hother])

/-- Files of one install path lie one below the other. -/
theorem liesBelow_of_installPath_eq (hne : file.key ≠ other.key)
    (h : file.installPath settings = other.installPath settings) :
    file.LiesBelow other ∨ other.LiesBelow file := by
  by_cases hplace : file.place settings = other.place settings
  · obtain ⟨-, ⟨hfile, -⟩ | ⟨hother, -⟩⟩ := (place_eq_iff hne).1 hplace
    · exact Or.inl (Or.inl hfile)
    · exact Or.inr (Or.inl hother)
  · rcases (withoutSource_eq_iff hplace).1 h with ⟨hfile, -⟩ | ⟨hother, -⟩
    · exact Or.inl (liesBelow_of_place_eq hne hfile)
    · exact Or.inr (liesBelow_of_place_eq hne.symm hother)

theorem path_ofSource_eq_iff (hfile : Path.IsNormal file.key) (hother : Path.IsNormal other.key) :
    (BlockFile.ofSource settings file).path = (BlockFile.ofSource settings other).path ↔
      file.place settings = other.place settings := by
  rw [ofSource_eq hfile, ofSource_eq hother, ← String.toList_inj, ← String.toList_inj]
  simp

end SourceFile

/-! ### Blocks -/

/-- Of files with different keys, any two satisfy a symmetric relation if those with different keys
do. -/
theorem pairwise_iff_forall_key_ne {files : List SourceFile}
    (hkeys : (files.map SourceFile.key).Nodup) {R : SourceFile → SourceFile → Prop}
    (hsymm : ∀ file other, R file other → R other file) :
    files.Pairwise R ↔
      ∀ file ∈ files, ∀ other ∈ files, file.key ≠ other.key → R file other := by
  have hne : files.Pairwise fun file other => file.key ≠ other.key := List.pairwise_map.1 hkeys
  have : Std.Symm R := ⟨hsymm⟩
  constructor
  · intro h file hfile other hother hkey
    exact h.forall hfile hother fun heq => hkey (congrArg SourceFile.key heq)
  · intro h
    exact hne.imp_of_mem fun hfile hother hkey => h _ hfile _ hother hkey

namespace Block

variable {settings : AliasSettings} {files : List SourceFile}

theorem nodup_paths_iff (hkeys : (files.map SourceFile.key).Nodup)
    (hnormal : ∀ file ∈ files, Path.IsNormal file.key) :
    ((files.map (BlockFile.ofSource settings)).map BlockFile.path).Nodup ↔
      (settings.sourceRoot = true → ∀ file ∈ files, ∀ other ∈ files,
        file.key = belowSource other.key → ∃ path, other.key = belowSource path) := by
  rw [List.map_map, List.Nodup, List.pairwise_map,
    pairwise_iff_forall_key_ne hkeys fun file other hne => hne.symm]
  simp only [Function.comp_apply]
  constructor
  · intro h hroot file hfile other hother hkey
    by_contra hflat
    have hne : file.key ≠ other.key := by
      rw [hkey]
      exact (ne_belowSource other.key).symm
    apply h file hfile other hother hne
    rw [SourceFile.path_ofSource_eq_iff (hnormal file hfile) (hnormal other hother),
      SourceFile.place_eq_iff hne]
    exact ⟨hroot, Or.inl ⟨hkey, not_exists.1 hflat⟩⟩
  · intro h file hfile other hother hne hpath
    rw [SourceFile.path_ofSource_eq_iff (hnormal file hfile) (hnormal other hother),
      SourceFile.place_eq_iff hne] at hpath
    obtain ⟨hroot, ⟨hkey, hflat⟩ | ⟨hkey, hflat⟩⟩ := hpath
    · obtain ⟨path, hbelow⟩ := h hroot file hfile other hother hkey
      exact hflat path hbelow
    · obtain ⟨path, hbelow⟩ := h hroot other hother file hfile hkey
      exact hflat path hbelow

theorem nodup_targets_iff (hkeys : (files.map SourceFile.key).Nodup)
    (hnormal : ∀ file ∈ files, Path.IsNormal file.key) :
    ((files.map (BlockFile.ofSource settings)).filterMap BlockFile.target).Nodup ↔
      ∀ file ∈ files, ∀ other ∈ files, file.key ≠ other.key →
        ¬ file.SharesTarget settings other := by
  rw [List.filterMap_map, List.Nodup, List.pairwise_filterMap, pairwise_iff_forall_key_ne hkeys]
  · apply forall₄_congr
    intro file hfile other hother
    apply imp_congr_right
    intro hne
    rw [← SourceFile.exists_target_iff (hnormal file hfile) (hnormal other hother) hne]
    constructor
    · rintro h ⟨target, htarget, htarget'⟩
      exact h target htarget target htarget' rfl
    · rintro h target htarget _ htarget' rfl
      exact h ⟨target, htarget, htarget'⟩
  · intro file other h target htarget target' htarget' heq
    exact h target' htarget' target htarget heq.symm

/-- Files with different normal keys keep different paths in a block, unless the layout has a source
root and one of them is another one below it; and they keep different targets, unless two of them
that are no style sheets are the same without the source root. So nothing collides as long as no key
is another one with `src/` in front of it, once or twice. -/
theorem nodup_paths_and_targets (settings : AliasSettings) {files : List SourceFile}
    (hkeys : (files.map SourceFile.key).Nodup)
    (hnormal : ∀ file ∈ files, Path.IsNormal file.key) :
    let entries := files.map (BlockFile.ofSource settings)
    ((entries.map BlockFile.path).Nodup ↔
        (settings.sourceRoot = true → ∀ file ∈ files, ∀ other ∈ files,
          file.key = belowSource other.key → ∃ path, other.key = belowSource path)) ∧
      ((entries.filterMap BlockFile.target).Nodup ↔
        ∀ file ∈ files, ∀ other ∈ files, file.key ≠ other.key →
          ¬ file.SharesTarget settings other) ∧
      ((∀ file ∈ files, ∀ other ∈ files, ¬ file.LiesBelow other) →
        (entries.map BlockFile.path).Nodup ∧ (entries.filterMap BlockFile.target).Nodup) := by
  intro entries
  refine ⟨nodup_paths_iff hkeys hnormal, nodup_targets_iff hkeys hnormal, fun hflat => ⟨?_, ?_⟩⟩
  · refine (nodup_paths_iff hkeys hnormal).2 fun _ file hfile other hother hkey => ?_
    exact absurd (Or.inl hkey) (hflat file hfile other hother)
  · refine (nodup_targets_iff hkeys hnormal).2 fun file hfile other hother hne hshares => ?_
    rcases SourceFile.liesBelow_of_installPath_eq hne hshares.installPath_eq with hbelow | hbelow
    · exact hflat file hfile other hother hbelow
    · exact hflat other hother file hfile hbelow

theorem nodup_paths_and_targets_app :
    let settings : AliasSettings := { ui := some "@/components/ui", sourceRoot := true }
    let files : List SourceFile :=
      [⟨"src/app/page.tsx", ""⟩, ⟨"./tailwind.css", ""⟩, ⟨"src/styles\\globals.css", ""⟩,
        ⟨"src/content/post.mdx", ""⟩, ⟨"src/components/ui/button.tsx", ""⟩]
    let entries := files.map (BlockFile.ofSource settings)
    (files.map SourceFile.key).Nodup ∧ (∀ file ∈ files, Path.IsNormal file.key) ∧
      (entries.map BlockFile.path).Nodup ∧ (entries.filterMap BlockFile.target).Nodup := by
  intro settings files entries
  have hkeys : (files.map SourceFile.key).Nodup := by decide +kernel
  have hnormal : ∀ file ∈ files, Path.IsNormal file.key := by decide +kernel
  exact ⟨hkeys, hnormal,
    (nodup_paths_and_targets settings hkeys hnormal).2.2 (by decide +kernel)⟩

/-- A file below `src/` and its namesake beside it collide: in a layout with a source root in their
paths, and in a flat one in their targets. -/
theorem not_nodup_of_namesake_belowSource :
    let files : List SourceFile := [⟨"seed.ts", ""⟩, ⟨"src/seed.ts", ""⟩]
    (files.map SourceFile.key).Nodup ∧ (∀ file ∈ files, Path.IsNormal file.key) ∧
      ¬ ((files.map (BlockFile.ofSource { sourceRoot := true })).map BlockFile.path).Nodup ∧
      ¬ ((files.map (BlockFile.ofSource {})).filterMap BlockFile.target).Nodup := by
  decide +kernel

end Block

end RegistryBlock
