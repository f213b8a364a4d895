import RegistryBlock.Proofs.Alias.CatchAll
import RegistryBlock.Proofs.Layout.Place

/-!
# Directories of aliases and the roles of files

The table gives the alias in a slot a directory, below `src/` if the sources lie there, and the role
of a file is that of the first slot whose directory holds it. A file outside the sources is taken as
if it lay among them: its key is compared with the directory without `src/`.
-/

namespace RegistryBlock

def Path.LiesIn (path directory : String) : Prop :=
  path = directory ∨ ∃ rest, path = directory ++ "/" ++ rest

theorem Placement.isUnder_iff_liesIn {path directory : String} :
    isUnder path.toList directory.toList = true ↔ Path.LiesIn path directory := by
  rw [isUnder, Bool.or_eq_true, decide_eq_true_iff, String.toList_inj, Text.startsWith_iff]
  refine or_congr_right ⟨?_, ?_⟩
  · rintro ⟨rest, hrest⟩
    exact ⟨String.ofList rest, String.toList_inj.1 (by simpa using hrest)⟩
  · rintro ⟨rest, rfl⟩
    exact ⟨rest.toList, by simp⟩

instance (path directory : String) : Decidable (Path.LiesIn path directory) :=
  decidable_of_iff _ Placement.isUnder_iff_liesIn

theorem Path.liesIn_append_iff (front path directory : String) :
    LiesIn (front ++ path) (front ++ directory) ↔ LiesIn path directory := by
  simp only [LiesIn, ← String.toList_inj, String.toList_append, List.append_assoc,
    List.append_cancel_left_eq]

namespace AliasTable

def entry? (settings : AliasSettings) (slot : Slot) : Option AliasEntry :=
  (settings.get? slot).bind (ofAlias? settings)

theorem mem_entries_of_entry? {settings : AliasSettings} {slot : Slot} {entry : AliasEntry}
    (h : entry? settings slot = some entry) : entry ∈ (ofSettings settings).entries := by
  obtain ⟨value, hvalue, hentry⟩ := Option.bind_eq_some_iff.1 h
  have hslot : slot ∈ Slot.all := by cases slot <;> decide
  refine List.mem_mergeSort.2 (List.mem_append_left _ (List.mem_filterMap.2 ⟨value, ?_, hentry⟩))
  exact List.mem_filterMap.2 ⟨slot, hslot, hvalue⟩

end AliasTable

namespace AliasSettings

variable (settings : AliasSettings)

/-- Whether the directory that the table gives to a slot holds a path. -/
def Holds (slot : Slot) (path : String) : Prop :=
  ∃ entry, AliasTable.entry? settings slot = some entry ∧ Path.LiesIn path entry.directory

/-- Whether a slot is the first of those that decide a role whose directory holds a path. -/
def Decides (slot : Slot) (role : Role) (path : String) : Prop :=
  ∃ earlier later, Placement.aliasRoles = earlier ++ (slot, role) :: later ∧
    settings.Holds slot path ∧ ∀ other ∈ earlier, ¬ settings.Holds other.1 path

variable {settings} {slot : Slot} {role : Role} {path : String}

/-- A path lies in the directory of an alias if it lies there seen from the sources. -/
theorem holds_rootFront_append_iff :
    settings.Holds slot (settings.rootFront ++ path) ↔
      ∃ directory, (settings.get? slot).bind aliasPath? = some directory ∧
        Placement.isUnder path.toList directory = true := by
  simp only [Holds, AliasTable.entry?, AliasTable.ofAlias?, Option.bind_eq_some_iff,
    Option.map_eq_some_iff]
  constructor
  · rintro ⟨_, ⟨value, hvalue, directory, hdirectory, rfl⟩, hin⟩
    rw [Path.liesIn_append_iff, ← Placement.isUnder_iff_liesIn, String.toList_ofList] at hin
    exact ⟨directory, ⟨value, hvalue, hdirectory⟩, hin⟩
  · rintro ⟨directory, ⟨value, hvalue, hdirectory⟩, hin⟩
    refine ⟨_, ⟨value, hvalue, directory, hdirectory, rfl⟩, ?_⟩
    rwa [Path.liesIn_append_iff, ← Placement.isUnder_iff_liesIn, String.toList_ofList]

variable (settings) in
def slotRole? (path : List Char) (entry : Slot × Role) : Option Role :=
  ((settings.get? entry.1).bind aliasPath?).bind fun directory =>
    if Placement.isUnder path directory then some entry.2 else none

theorem aliasRole?_eq_findSome? (settings : AliasSettings) (path : List Char) :
    Placement.aliasRole? settings path =
      Placement.aliasRoles.findSome? (settings.slotRole? path) := by
  rw [Placement.aliasRole?]
  congr 1
  funext entry
  dsimp only [slotRole?]
  cases (settings.get? entry.1).bind aliasPath? <;> rfl

theorem slotRole?_eq_some_iff {entry : Slot × Role} :
    settings.slotRole? path.toList entry = some role ↔
      settings.Holds entry.1 (settings.rootFront ++ path) ∧ entry.2 = role := by
  rw [slotRole?, Option.bind_eq_some_iff, holds_rootFront_append_iff]
  simp only [Option.ite_none_right_eq_some, Option.some.injEq, exists_and_right, ← and_assoc]

theorem slotRole?_eq_none_iff {entry : Slot × Role} :
    settings.slotRole? path.toList entry = none ↔
      ¬ settings.Holds entry.1 (settings.rootFront ++ path) := by
  rw [Option.eq_none_iff_forall_ne_some]
  simp only [Ne, slotRole?_eq_some_iff, not_and]
  constructor
  · intro h hholds
    exact h entry.2 hholds rfl
  · intro h _ hholds
    exact absurd hholds h

theorem aliasRole?_eq_some_iff :
    Placement.aliasRole? settings path.toList = some role ↔
      ∃ slot, settings.Decides slot role (settings.rootFront ++ path) := by
  rw [aliasRole?_eq_findSome?, List.findSome?_eq_some_iff]
  constructor
  · rintro ⟨earlier, ⟨slot, other⟩, later, hsplit, hfound, hearlier⟩
    obtain ⟨hholds, rfl⟩ := slotRole?_eq_some_iff.1 hfound
    exact ⟨slot, earlier, later, hsplit, hholds, fun first hfirst =>
      slotRole?_eq_none_iff.1 (hearlier first hfirst)⟩
  · rintro ⟨slot, earlier, later, hsplit, hholds, hearlier⟩
    exact ⟨earlier, (slot, role), later, hsplit, slotRole?_eq_some_iff.2 ⟨hholds, rfl⟩,
      fun first hfirst => slotRole?_eq_none_iff.2 (hearlier first hfirst)⟩

theorem Decides.mem (h : settings.Decides slot role path) :
    (slot, role) ∈ Placement.aliasRoles := by
  obtain ⟨earlier, later, hsplit, -⟩ := h
  rw [hsplit]
  exact List.mem_append_right _ List.mem_cons_self

end AliasSettings

/-! ### Roles -/

theorem Role.label_injective : Function.Injective Role.label := by
  intro role other h
  cases role <;> cases other <;> first | rfl | exact absurd h (by decide)

namespace Placement

variable {settings : AliasSettings} {slot : Slot} {role : Role}

/-- The role of a slot is given by the aliases only. -/
theorem role_ofKey_eq_iff (hrole : (slot, role) ∈ aliasRoles) (key : String)
    (fromSourceRoot : Bool) :
    (ofKey settings key fromSourceRoot).role = role ↔
      aliasRole? settings key.toList = some role := by
  cases hfound : aliasRole? settings key.toList with
  | some found => simp only [ofKey, hfound, Option.some.injEq]
  | none =>
    have hother : ∀ entry ∈ aliasRoles,
        entry.2 ∉ [Role.page, .theme, .style, .file, .component] := by decide
    refine iff_of_false (fun heq => hother _ hrole ?_) fun h => nomatch h
    rw [← heq]
    simp only [ofKey, hfound]
    split_ifs <;> simp

end Placement

namespace SourceFile

variable {settings : AliasSettings} {file : SourceFile} {slot : Slot} {role : Role}

/-- The type of a file is that of a slot if and only if the slot is the first one that holds the
place of the file, seen from the sources. -/
theorem type_ofSource_eq_iff (h : Path.IsNormal file.key)
    (hrole : (slot, role) ∈ Placement.aliasRoles) :
    (BlockFile.ofSource settings file).type = role.label ↔
      settings.Decides slot role (settings.rootFront ++ file.place settings) := by
  have hslots : ∀ entry ∈ Placement.aliasRoles, ∀ other ∈ Placement.aliasRoles,
      entry.2 = other.2 → entry.1 = other.1 := by decide
  rw [ofSource_eq h, Role.label_injective.eq_iff, placement, Placement.role_ofKey_eq_iff hrole,
    AliasSettings.aliasRole?_eq_some_iff]
  constructor
  · rintro ⟨other, hdecides⟩
    obtain rfl := hslots _ hdecides.mem _ hrole rfl
    exact hdecides
  · exact fun hdecides => ⟨slot, hdecides⟩

/-- Whether a file lies outside the directory of the sources. -/
def IsOutside (settings : AliasSettings) (file : SourceFile) : Prop :=
  settings.sourceRoot = true ∧ ∀ inner, file.key ≠ belowSource inner

theorem rootFront_append_place (settings : AliasSettings) (file : SourceFile) :
    ¬ file.IsOutside settings ∧ settings.rootFront ++ file.place settings = file.key ∨
      file.IsOutside settings ∧
        settings.rootFront ++ file.place settings = belowSource file.key := by
  by_cases hroot : settings.sourceRoot = true
  · have hplace : settings.rootFront ++ file.place settings =
        belowSource (withoutSource file.key) := by
      simp [AliasSettings.rootFront, place, hroot, belowSource]
    rw [hplace]
    rcases withoutSource_cases file.key with hkey | ⟨hkey, hflat⟩
    · exact .inl ⟨fun houtside => houtside.2 _ hkey, hkey.symm⟩
    · exact .inr ⟨⟨hroot, hflat⟩, by rw [hkey]⟩
  · refine .inl ⟨fun houtside => hroot houtside.1, ?_⟩
    simp [AliasSettings.rootFront, place, hroot]

end SourceFile

/-- No directory of an alias holds a file outside the sources. -/
theorem AliasSettings.not_holds_of_isOutside {settings : AliasSettings} {file : SourceFile}
    (h : file.IsOutside settings) (slot : Slot) : ¬ settings.Holds slot file.key := by
  rintro ⟨entry, hentry, hin⟩
  obtain ⟨value, -, hvalue⟩ := Option.bind_eq_some_iff.1 hentry
  obtain ⟨path, -, rfl⟩ := Option.map_eq_some_iff.1 hvalue
  have hfront : settings.rootFront = "src/" := if_pos h.1
  rw [hfront] at hin
  rcases hin with hkey | ⟨rest, hkey⟩
  · exact h.2 _ hkey
  · refine h.2 (String.ofList path ++ "/" ++ rest) ?_
    rw [hkey, belowSource]
    simp only [String.append_assoc]

/-- The roles of files agree with the directories of the aliases in the table: a file has the type
of a slot if and only if the slot is the first one whose directory holds the file. Only the files
outside the directory of the sources are held against the directories as if they lay in it. -/
theorem type_agrees_with_table (settings : AliasSettings) {files : List SourceFile}
    (hnormal : ∀ file ∈ files, Path.IsNormal file.key) {slot : Slot} {role : Role}
    (hrole : (slot, role) ∈ Placement.aliasRoles) :
    (∀ entry, AliasTable.entry? settings slot = some entry →
      entry ∈ (AliasTable.ofSettings settings).entries) ∧
    ∀ file ∈ files,
      (¬ file.IsOutside settings →
        ((BlockFile.ofSource settings file).type = role.label ↔
          settings.Decides slot role file.key)) ∧
      (file.IsOutside settings →
        ((BlockFile.ofSource settings file).type = role.label ↔
          settings.Decides slot role (belowSource file.key))) ∧
      (settings.Decides slot role file.key →
        (BlockFile.ofSource settings file).type = role.label) := by
  refine ⟨fun entry hentry => AliasTable.mem_entries_of_entry? hentry, fun file hfile => ?_⟩
  have htype := @SourceFile.type_ofSource_eq_iff settings file slot role (hnormal file hfile) hrole
  rcases SourceFile.rootFront_append_place settings file with ⟨hinside, hplace⟩ | ⟨houtside, hplace⟩
  · rw [hplace] at htype
    exact ⟨fun _ => htype, fun h => absurd h hinside, htype.2⟩
  · rw [hplace] at htype
    refine ⟨fun h => absurd houtside h, fun _ => htype, ?_⟩
    rintro ⟨-, -, -, hholds, -⟩
    exact absurd hholds (AliasSettings.not_holds_of_isOutside houtside slot)

theorem type_agrees_with_table_components :
    let settings : AliasSettings :=
      { components := "@/components", ui := "@/components/ui/", lib := "~/lib", sourceRoot := true }
    let nav : SourceFile := ⟨"src/components/nav.tsx", ""⟩
    let outer : SourceFile := ⟨"./components/card.tsx", ""⟩
    (∀ file ∈ [nav, outer], Path.IsNormal file.key) ∧
      (Slot.components, Role.block) ∈ Placement.aliasRoles ∧
      AliasTable.entry? settings .components = some ⟨"@/components", "src/components"⟩ ∧
      ⟨"@/components", "src/components"⟩ ∈ (AliasTable.ofSettings settings).entries ∧
      (BlockFile.ofSource settings nav).type = "registry:block" ∧
      settings.Decides .components .block "src/components/nav.tsx" ∧
      outer.IsOutside settings ∧ (BlockFile.ofSource settings outer).type = "registry:block" ∧
      settings.Decides .components .block "src/components/card.tsx" := by
  intro settings nav outer
  have hnormal : ∀ file ∈ [nav, outer], Path.IsNormal file.key := by decide +kernel
  have hrole : (Slot.components, Role.block) ∈ Placement.aliasRoles := by decide
  have hentry : AliasTable.entry? settings .components =
      some ⟨"@/components", "src/components"⟩ := by decide +kernel
  have hinside : ¬ nav.IsOutside settings := fun h => h.2 "components/nav.tsx" (by decide +kernel)
  have houtside : outer.IsOutside settings :=
    ⟨rfl, dropFront?_eq_none_iff_belowSource.1 (by decide +kernel)⟩
  have hnav : (BlockFile.ofSource settings nav).type = "registry:block" := by decide +kernel
  have houter : (BlockFile.ofSource settings outer).type = "registry:block" := by decide +kernel
  obtain ⟨htable, hfiles⟩ := type_agrees_with_table settings hnormal hrole
  have hkeys : nav.key = "src/components/nav.tsx" ∧
      belowSource outer.key = "src/components/card.tsx" := by decide +kernel
  exact ⟨hnormal, hrole, hentry, htable _ hentry, hnav,
    hkeys.1 ▸ ((hfiles nav (by simp)).1 hinside).1 hnav, houtside, houter,
    hkeys.2 ▸ ((hfiles outer (by simp)).2.1 houtside).1 houter⟩

/-- A file outside the sources has the type of a slot and lies in no directory of the table. -/
theorem type_of_outside_of_table :
    let settings : AliasSettings := { ui := "@/components/ui", sourceRoot := true }
    let file : SourceFile := ⟨"components/ui/button.tsx", ""⟩
    settings.HasNormalAliases ∧ Path.IsNormal file.key ∧
      (BlockFile.ofSource settings file).type = Role.ui.label ∧
      AliasTable.entry? settings .ui = some ⟨"@/components/ui", "src/components/ui"⟩ ∧
      ¬ Path.LiesIn file.key "src/components/ui" := by
  decide +kernel

end RegistryBlock
