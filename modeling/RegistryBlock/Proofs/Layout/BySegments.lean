import RegistryBlock.Proofs.Layout.Directory
import RegistryBlock.Proofs.Layout.Theme

/-!
# Roles by segments

The role of a file and its place of installation, told from the segments of its key alone: which
ones come first, and what the last one is. The text of the key gives the same answer, as long as it
is ASCII on one line; outside of that the names of themes differ.
-/

namespace RegistryBlock

/-! ### Aliases -/

/-- A directory holds a path if its segments come first. -/
theorem Placement.isUnder_iff_isPrefix {path directory : List Char} :
    isUnder path directory = true ↔ Path.segments directory <+: Path.segments path := by
  rw [Path.segments_isPrefix_iff, isUnder, Bool.or_eq_true, decide_eq_true_iff,
    Text.startsWith_iff]
  simp only [List.append_assoc, List.singleton_append]

namespace AliasSettings

/-- Whether the alias in a slot begins with `@/`, goes on with a path when slashes at the ends do
not count, and the segments of that path are the first ones of the given ones. -/
def Covers (settings : AliasSettings) (slot : Slot) (segs : List Path.Segment) : Prop :=
  ∃ value rest, settings.get? slot = some value ∧ value.toList = "@/".toList ++ rest ∧
    Text.trimBy isSlash rest ≠ [] ∧ Path.segments (Text.trimBy isSlash rest) <+: segs

variable {settings : AliasSettings} {slot : Slot} {segs : List Path.Segment}

theorem covers_iff :
    settings.Covers slot segs ↔ ∃ directory, (settings.get? slot).bind aliasPath? = some directory ∧
      Path.segments directory <+: segs := by
  constructor
  · rintro ⟨value, rest, hvalue, hrest, hne, hfront⟩
    exact ⟨_, Option.bind_eq_some_iff.2
      ⟨value, hvalue, aliasPath?_eq_some_iff.2 ⟨hne, rest, hrest, rfl⟩⟩, hfront⟩
  · rintro ⟨directory, hdirectory, hfront⟩
    obtain ⟨value, hvalue, hpath⟩ := Option.bind_eq_some_iff.1 hdirectory
    obtain ⟨hne, rest, hrest, rfl⟩ := aliasPath?_eq_some_iff.1 hpath
    exact ⟨value, rest, hvalue, hrest, hne, hfront⟩

instance (settings : AliasSettings) (slot : Slot) (segs : List Path.Segment) :
    Decidable (settings.Covers slot segs) :=
  decidable_of_iff
    (((settings.get? slot).bind aliasPath?).any fun directory =>
      decide (Path.segments directory <+: segs)) <| by
    rw [Option.any_eq_true, covers_iff]
    simp only [decide_eq_true_eq]

theorem slotRole?_eq_ite (settings : AliasSettings) (path : List Char) (entry : Slot × Role) :
    settings.slotRole? path entry =
      if settings.Covers entry.1 (Path.segments path) then some entry.2 else none := by
  rw [slotRole?]
  cases hdirectory : (settings.get? entry.1).bind aliasPath? with
  | none => simp [covers_iff, hdirectory]
  | some directory => simp [covers_iff, hdirectory, Placement.isUnder_iff_isPrefix]

def roleOf? (settings : AliasSettings) (segs : List Path.Segment) : Option Role :=
  if settings.Covers .ui segs then some .ui
  else if settings.Covers .components segs then some .block
  else if settings.Covers .hooks segs then some .hook
  else if settings.Covers .lib segs then some .lib
  else none

theorem aliasRole?_eq_roleOf? (settings : AliasSettings) (path : List Char) :
    Placement.aliasRole? settings path = settings.roleOf? (Path.segments path) := by
  simp only [aliasRole?_eq_findSome?, Placement.aliasRoles, List.findSome?_cons,
    List.findSome?_nil, slotRole?_eq_ite, roleOf?]
  split_ifs <;> rfl

theorem mem_of_roleOf?_eq_some {role : Role} (h : settings.roleOf? segs = some role) :
    role ∈ [Role.ui, .block, .hook, .lib] := by
  unfold roleOf? at h
  split_ifs at h <;> cases h <;> decide

end AliasSettings

/-! ### Placements -/

namespace Placement

/-- The placement of a file told from the segments of its key. -/
def bySegments (settings : AliasSettings) (segs : List Path.Segment) (fromSourceRoot : Bool) :
    Placement :=
  let path := Path.ofSegments segs
  let installed := Path.ofSegments (Path.withoutRoot segs)
  let name := Path.lastName segs
  match settings.roleOf? segs with
  | some role => { role }
  | none =>
    if Path.BeginsIn segs "app".toList then { role := .page, target := inItem installed }
    else if IsThemeName name then { role := .theme }
    else if Path.HasExtension styleExtensions name then
      { role := .style, target := if fromSourceRoot then inItem path else inProject path }
    else if ".env".toList <+: name ∨ Path.HasExtension dataExtensions name then
      { role := .file, target := inProject installed }
    else if Path.HasExtension componentExtensions name then { role := .component }
    else { role := .file, target := inItem installed }

theorem startsWith_app_iff (path : List Char) :
    Text.startsWith "app/".toList path = true ↔
      Path.BeginsIn (Path.segments path) "app".toList := by
  rw [Text.startsWith_iff, Path.beginsIn_segments_iff (by decide)]
  exact Iff.rfl

variable (settings : AliasSettings)

/-- The placement of an ASCII key on one line is told from its segments. -/
theorem ofKey_eq_bySegments {key : String} (h : Text.IsAsciiLine key.toList)
    (fromSourceRoot : Bool) :
    ofKey settings key fromSourceRoot =
      bySegments settings (Path.segments key.toList) fromSourceRoot := by
  have hpage := startsWith_app_iff key.toList
  have htheme := isTheme_iff h
  have hstyle := Path.extension_mem_iff (by decide : "" ∉ styleExtensions) key.toList
  have henv : Text.startsWith ".env".toList (Path.baseName key.toList) = true ↔
      ".env".toList <+: Path.lastName (Path.segments key.toList) := by
    rw [Text.startsWith_iff_isPrefix, Path.baseName_eq_lastName]
  have hdata := Path.extension_mem_iff (by decide : "" ∉ dataExtensions) key.toList
  have hcomponent := Path.extension_mem_iff (by decide : "" ∉ componentExtensions) key.toList
  have hinstalled : dropSourceRoot key.toList =
      Path.ofSegments (Path.withoutRoot (Path.segments key.toList)) :=
    (Path.ofSegments_withoutRoot_segments key.toList).symm
  have halias := AliasSettings.aliasRole?_eq_roleOf? settings key.toList
  cases hrole : settings.roleOf? (Path.segments key.toList) with
  | some role => simp only [ofKey, bySegments, halias, hrole]
  | none =>
    simp only [ofKey, bySegments, halias, hrole, hpage, htheme, hstyle, henv, hdata, hcomponent,
      hinstalled, Path.ofSegments_segments, Bool.or_eq_true, decide_eq_true_eq]

/-- Whether a placement has a target exactly if its role is that of a page, a style sheet or a plain
file. -/
def TargetFitsRole (placement : Placement) : Prop :=
  placement.target.isSome = true ↔ placement.role ∈ [.page, .style, .file]

theorem TargetFitsRole.ite {c : Prop} [Decidable c] {placement other : Placement}
    (h : placement.TargetFitsRole) (hother : other.TargetFitsRole) :
    (if c then placement else other).TargetFitsRole := by
  split
  · exact h
  · exact hother

theorem targetFitsRole_bySegments (segs : List Path.Segment) (fromSourceRoot : Bool) :
    (bySegments settings segs fromSourceRoot).TargetFitsRole := by
  unfold bySegments
  split
  · next role hrole =>
    have hother : ∀ role ∈ [Role.ui, .block, .hook, .lib], role ∉ [Role.page, .style, .file] := by
      decide
    simpa [TargetFitsRole] using hother role (AliasSettings.mem_of_roleOf?_eq_some hrole)
  · refine .ite ?_ (.ite ?_ (.ite ?_ (.ite ?_ (.ite ?_ ?_))))
    all_goals cases fromSourceRoot <;> simp [TargetFitsRole]

end Placement

/-- The entry of a file is told from the segments of its key if the path is ASCII on one line: its
type and its target are those of the placement by segments. It has a target exactly if it is a page,
a style sheet or a plain file. -/
theorem BlockFile.ofKey_by_segments (settings : AliasSettings) {path : String}
    (h : Text.IsAsciiLine path.toList) (content : String) (fromSourceRoot : Bool) :
    let key := Path.key path
    let file := BlockFile.ofKey settings key content fromSourceRoot
    let placement := Placement.bySegments settings (Path.segments key.toList) fromSourceRoot
    file = ⟨"./" ++ key, content, placement.role.label, placement.target⟩ ∧
      (file.target.isSome = true ↔
        ∃ role ∈ [Role.page, .style, .file], file.type = role.label) := by
  intro key file placement
  have hkey : Text.IsAsciiLine key.toList := by
    intro c hc
    rcases Path.mem_key hc with rfl | hmem
    · decide
    · exact h c hmem
  have hfile : file = ⟨"./" ++ key, content, placement.role.label, placement.target⟩ := by
    simp only [file, placement, BlockFile.ofKey, Placement.ofKey_eq_bySegments settings hkey]
  refine ⟨hfile, ?_⟩
  rw [hfile]
  refine (Placement.targetFitsRole_bySegments settings _ fromSourceRoot).trans ⟨?_, ?_⟩
  · exact fun hrole => ⟨_, hrole, rfl⟩
  · rintro ⟨role, hmem, hlabel⟩
    rwa [Role.label_injective hlabel]

theorem BlockFile.ofKey_by_segments_globals :
    let settings : AliasSettings := { ui := "@//components/ui/", lib := "~/lib" }
    let path := ".\\src\\app\\globals.css"
    let key := Path.key path
    let file := BlockFile.ofKey settings key "" false
    let placement := Placement.bySegments settings (Path.segments key.toList) false
    Text.IsAsciiLine path.toList ∧ key = "src/app/globals.css" ∧
      placement = ⟨.style, some "~/src/app/globals.css"⟩ ∧
      file = ⟨"./" ++ key, "", placement.role.label, placement.target⟩ ∧
      (file.target.isSome = true ↔
        ∃ role ∈ [Role.page, .style, .file], file.type = role.label) := by
  intro settings path key file placement
  have hascii : Text.IsAsciiLine path.toList := by decide +kernel
  have hkey : key = "src/app/globals.css" := by decide +kernel
  have hplacement : placement = ⟨.style, some "~/src/app/globals.css"⟩ := by decide +kernel
  exact ⟨hascii, hkey, hplacement, BlockFile.ofKey_by_segments settings hascii "" false⟩

end RegistryBlock
