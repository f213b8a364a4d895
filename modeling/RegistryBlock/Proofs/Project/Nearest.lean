import Mathlib.Data.List.Infix
import Mathlib.Data.Set.Insert
import RegistryBlock.Project.Aliases
import RegistryBlock.Proofs.Tree.Rewrite

/-!
# The nearest file with aliases

The search for the file with the aliases climbs from directory to directory until the file is there,
or until it has come to the root, which is its own parent. So it ends with the file of the deepest
directory that has one. Files that are added to the tree beside the way up, or above the file that
is found, make no difference.
-/

namespace RegistryBlock

namespace Location

/-- Every location is reached from the root, one name after the other. -/
@[elab_as_elim] theorem child_induction {motive : Location → Prop} (root : motive .root)
    (child : ∀ loc name, motive loc → motive (loc.child name)) (loc : Location) : motive loc := by
  obtain ⟨names⟩ := loc
  induction names using List.reverseRecOn with
  | nil => exact root
  | append_singleton names name ih => exact child ⟨names⟩ name ih

theorem length_child (loc : Location) (name : String) :
    (loc.child name).names.length = loc.names.length + 1 := by
  rw [child, List.length_append, List.length_singleton]

theorem child_ne_self (loc : Location) (name : String) : loc.child name ≠ loc := by
  intro h
  have hlength := length_child loc name
  rw [h] at hlength
  omega

theorem ancestors_child (loc : Location) (name : String) :
    (loc.child name).ancestors = loc.child name :: loc.ancestors := by
  rw [ancestors, child, List.reverse_append, List.reverse_singleton, List.singleton_append,
    ancestorsOf, List.reverse_cons, List.reverse_reverse, ancestors]

end Location

namespace AliasSettings

variable {tree other : Tree} {start dir file : Location}

/-! ### The way up -/

/-- Whether the search upwards from a location ends with an outcome: with the file where there is
one, with nothing at the root, and else in the same way as from the parent. -/
inductive Ascends (tree : Tree) : Location → Option Location → Prop where
  | found {current : Location} (hfile : tree.isFileAt (current.child fileName) = true) :
      Ascends tree current (some (current.child fileName))
  | top {current : Location} (hfile : tree.isFileAt (current.child fileName) = false)
      (htop : current.parent = current) : Ascends tree current none
  | climb {current : Location} {outcome : Option Location}
      (hfile : tree.isFileAt (current.child fileName) = false) (htop : current.parent ≠ current)
      (hrest : Ascends tree current.parent outcome) : Ascends tree current outcome

theorem nearestFile?_eq (tree : Tree) (start : Location) :
    nearestFile? tree start =
      if tree.isFileAt (start.child fileName) = true then some (start.child fileName)
      else if start.parent = start then none else nearestFile? tree start.parent := by
  cases start using Location.child_induction with
  | root =>
    have htop : Location.root.parent = .root := rfl
    have hancestors : Location.root.ancestors = [.root] := rfl
    rw [nearestFile?, hancestors, if_pos htop, List.map_singleton, List.find?_singleton]
  | child loc name =>
    rw [Location.parent_child, if_neg (Location.child_ne_self loc name).symm, nearestFile?,
      Location.ancestors_child, List.map_cons, List.find?_cons, ← nearestFile?]
    split <;> simp_all

theorem ascends_nearestFile? (tree : Tree) (start : Location) :
    Ascends tree start (nearestFile? tree start) := by
  induction start using Location.child_induction with
  | root =>
    rw [nearestFile?_eq]
    split
    · next hfile => exact .found hfile
    · next hfile => exact .top (eq_false_of_ne_true hfile) rfl
  | child loc name ih =>
    have htop : (loc.child name).parent ≠ loc.child name := by
      rw [Location.parent_child]
      exact (Location.child_ne_self loc name).symm
    rw [nearestFile?_eq, if_neg htop]
    split
    · next hfile => exact .found hfile
    · next hfile =>
      refine .climb (eq_false_of_ne_true hfile) htop ?_
      rwa [Location.parent_child]

theorem Ascends.nearestFile?_eq {outcome : Option Location} (h : Ascends tree start outcome) :
    nearestFile? tree start = outcome := by
  induction h with
  | found hfile => rw [AliasSettings.nearestFile?_eq, if_pos hfile]
  | top hfile htop =>
    rw [AliasSettings.nearestFile?_eq, if_neg (ne_true_of_eq_false hfile), if_pos htop]
  | climb hfile htop _ ih =>
    rw [AliasSettings.nearestFile?_eq, if_neg (ne_true_of_eq_false hfile), if_neg htop, ih]

/-! ### The deepest directory -/

/-- Whether a directory at or above a location has the file. -/
def IsHolder (tree : Tree) (start dir : Location) : Prop :=
  dir.names <+: start.names ∧ tree.isFileAt (dir.child fileName) = true

/-- Whether a directory is the deepest one at or above a location that has the file. -/
structure IsNearest (tree : Tree) (start dir : Location) : Prop where
  holder : IsHolder tree start dir
  deepest : ∀ above, IsHolder tree start above → above.names.length ≤ dir.names.length

theorem IsNearest.eq {above : Location} (h : IsNearest tree start dir)
    (habove : IsNearest tree start above) : above = dir := by
  have hfront := List.prefix_of_prefix_length_le habove.holder.1 h.holder.1
    (h.deepest above habove.holder)
  have hlength := habove.deepest dir h.holder
  have hnames := hfront.eq_of_length_le hlength
  cases above
  cases dir
  exact congrArg Location.mk hnames

theorem IsHolder.of_parent (h : IsHolder tree start.parent dir) : IsHolder tree start dir :=
  ⟨h.1.trans (List.dropLast_prefix start.names), h.2⟩

theorem IsHolder.parent (h : IsHolder tree start dir) (hne : dir ≠ start) :
    IsHolder tree start.parent dir := by
  cases start using Location.child_induction with
  | root =>
    obtain ⟨names⟩ := dir
    exact absurd (congrArg Location.mk (List.prefix_nil.1 h.1)) hne
  | child loc name =>
    rw [Location.parent_child]
    rcases List.prefix_concat_iff.1 h.1 with hnames | hfront
    · exact absurd (congrArg Location.mk hnames) hne
    · exact ⟨hfront, h.2⟩

theorem nearestFile?_eq_none_iff :
    nearestFile? tree start = none ↔ ∀ dir, ¬ IsHolder tree start dir := by
  simp only [nearestFile?, List.find?_eq_none, List.forall_mem_map, Location.mem_ancestors,
    IsHolder, not_and]

/-- The file with which a search ends is that of the deepest directory. -/
theorem Ascends.exists_isNearest {outcome : Option Location} (h : Ascends tree start outcome) :
    ∀ file ∈ outcome, ∃ dir, IsNearest tree start dir ∧ file = dir.child fileName := by
  induction h with
  | @found current hfile =>
    rintro file hresult
    obtain rfl := Option.some.inj hresult
    exact ⟨current, ⟨⟨List.prefix_rfl, hfile⟩, fun above habove => habove.1.length_le⟩, rfl⟩
  | top hfile htop => simp
  | @climb current outcome hfile htop _ ih =>
    -- The location itself has no file, so whoever has one lies at or above its parent.
    intro file hresult
    obtain ⟨dir, hdir, hchild⟩ := ih file hresult
    refine ⟨dir, ⟨hdir.holder.of_parent, fun above habove => ?_⟩, hchild⟩
    refine hdir.deepest above (habove.parent ?_)
    rintro rfl
    exact ne_true_of_eq_false hfile habove.2

theorem nearestFile?_eq_some_iff : nearestFile? tree start = some file ↔
    ∃ dir, IsNearest tree start dir ∧ file = dir.child fileName := by
  constructor
  · exact fun h => (ascends_nearestFile? tree start).exists_isNearest file h
  · rintro ⟨dir, hdir, rfl⟩
    cases hresult : nearestFile? tree start with
    | none => exact absurd hdir.holder (nearestFile?_eq_none_iff.1 hresult dir)
    | some found =>
      obtain ⟨above, habove, rfl⟩ :=
        (ascends_nearestFile? tree start).exists_isNearest found hresult
      rw [hdir.eq habove]

end AliasSettings

/-! ### Added files -/

namespace Tree

variable {tree other third : Tree} {added more : Set Location} {loc : Location}

/-- Whether all that is seen in a tree is seen in another one, which has more files at most at some
places. -/
structure Adds (tree other : Tree) (added : Set Location) : Prop where
  look_eq : ∀ names, tree.look names ≠ none → other.look names = tree.look names
  mem_added : ∀ loc, other.isFileAt loc = true → tree.isFileAt loc = true ∨ loc ∈ added

theorem Adds.isFileAt (h : tree.Adds other added) (hfile : tree.isFileAt loc = true) :
    other.isFileAt loc = true := by
  have hlook : tree.look loc.names ≠ none := by
    intro hnone
    rw [isFileAt_eq_look, hnone] at hfile
    cases hfile
  rw [isFileAt_eq_look, h.look_eq _ hlook, ← isFileAt_eq_look, hfile]

theorem Adds.trans (h : tree.Adds other added) (hother : other.Adds third more) :
    tree.Adds third (added ∪ more) where
  look_eq names hnames := by
    have hlook := h.look_eq names hnames
    rw [← hlook] at hnames ⊢
    exact hother.look_eq names hnames
  mem_added loc hfile := by
    rcases hother.mem_added loc hfile with hfile | hmore
    · exact (h.mem_added loc hfile).imp_right .inl
    · exact .inr (.inr hmore)

/-- A file can be written to a place where there is nothing. -/
theorem adds_set {path : WrittenPath} (h : tree.writable path = .ok loc)
    (hnew : tree.holds loc = false) (bytes : ByteArray) :
    tree.Adds (tree.set loc (.file bytes)) {loc} := by
  have hwritten := rewritten_set h bytes
  refine ⟨fun names hnames => ?_, fun place hfile => ?_⟩
  · rw [hwritten.look_eq, if_neg]
    rintro rfl
    rw [holds_eq_look, Option.isSome_eq_false_iff, Option.isNone_iff_eq_none] at hnew
    exact hnames hnew
  · by_cases hplace : place = loc
    · exact .inr hplace
    · exact .inl ((hwritten.isFileAt_eq hplace).symm.trans hfile)

end Tree

namespace AliasSettings

/-- Whether a place is not one where the search from `start` looks, or it lies above the file that
is the outcome. -/
def IsAside (start : Location) (outcome : Option Location) (loc : Location) : Prop :=
  (∀ dir : Location, dir.names <+: start.names → loc ≠ dir.child fileName) ∨
    ∃ file, outcome = some file ∧ loc.names.length < file.names.length

variable {tree other : Tree} {added : Set Location} {start dir : Location}

/-- Of the directories at or above a location, no other one gets the file by what is added aside,
unless it lies above the nearest one. -/
theorem IsHolder.of_adds (h : IsHolder other start dir) (hadds : tree.Adds other added)
    {outcome : Option Location} (haside : ∀ loc ∈ added, IsAside start outcome loc) :
    IsHolder tree start dir ∨
      ∃ file, outcome = some file ∧ (dir.child fileName).names.length < file.names.length := by
  rcases hadds.mem_added _ h.2 with hfile | hadded
  · exact .inl ⟨h.1, hfile⟩
  · exact .inr ((haside _ hadded).resolve_left fun hplace => hplace dir h.1 rfl)

theorem nearestFile?_eq_of_adds (hadds : tree.Adds other added)
    (haside : ∀ loc ∈ added, IsAside start (nearestFile? tree start) loc) :
    nearestFile? other start = nearestFile? tree start := by
  cases hresult : nearestFile? tree start with
  | none =>
    rw [hresult] at haside
    refine nearestFile?_eq_none_iff.2 fun dir hdir => ?_
    rcases hdir.of_adds hadds haside with hdir | ⟨file, hfile, -⟩
    · exact nearestFile?_eq_none_iff.1 hresult dir hdir
    · cases hfile
  | some file =>
    rw [hresult] at haside
    obtain ⟨dir, hdir, rfl⟩ := nearestFile?_eq_some_iff.1 hresult
    have hholder : IsHolder other start dir := ⟨hdir.holder.1, hadds.isFileAt hdir.holder.2⟩
    refine nearestFile?_eq_some_iff.2 ⟨dir, ⟨hholder, fun above habove => ?_⟩, rfl⟩
    rcases habove.of_adds hadds haside with habove | ⟨file, hfile, hless⟩
    · exact hdir.deepest above habove
    · obtain rfl := Option.some.inj hfile
      rw [Location.length_child, Location.length_child] at hless
      omega

/-- The search upwards from a path ends, with one outcome only. It is the file of the deepest
directory among the place of the path and those above it that has one, and nothing if none has. It
stays the same when files are added that do not stand on the way, or that stand above it. -/
theorem nearestFile?_deepest (tree : Tree) (cwd : Location) (path : WrittenPath) :
    let start := path.resolve cwd
    let result := nearestFile? tree start
    (∀ outcome, Ascends tree start outcome ↔ result = outcome) ∧
      (∀ file, result = some file ↔ ∃ dir, IsNearest tree start dir ∧ file = dir.child fileName) ∧
      (result = none ↔ ∀ dir, ¬ IsHolder tree start dir) ∧
      ∀ other added, tree.Adds other added → (∀ loc ∈ added, IsAside start result loc) →
        nearestFile? other start = result := by
  intro start result
  refine ⟨fun outcome => ⟨Ascends.nearestFile?_eq, ?_⟩, fun _ => nearestFile?_eq_some_iff,
    nearestFile?_eq_none_iff, fun other added => nearestFile?_eq_of_adds⟩
  rintro rfl
  exact ascends_nearestFile? tree start

theorem nearestFile?_deepest_missing :
    let tree : Tree := .dir [("w", .dir [("components.json", .file .empty),
      ("project", .dir [("components.json", .dir []), ("app", .dir [])])])]
    let notes : Location := ⟨["w", "project", "app", "notes.txt"]⟩
    let above : Location := ⟨["components.json"]⟩
    let other := (tree.set notes (.file .empty)).set above (.file .empty)
    let start := (WrittenPath.ofString "../app/missing").resolve ⟨["w", "project", "lib"]⟩
    let file : Location := ⟨["w", "components.json"]⟩
    Ascends tree start (some file) ∧ IsNearest tree start ⟨["w"]⟩ ∧ tree.Adds other {notes, above} ∧
      (∀ loc ∈ ({notes, above} : Set Location), IsAside start (some file) loc) ∧
      nearestFile? other start = some file := by
  intro tree notes above other start file
  have hstart : start = ⟨["w", "project", "app", "missing"]⟩ := by decide
  have hresult : nearestFile? tree start = some file := by decide
  have hadds : tree.Adds other {notes, above} := by
    have hnotes : tree.writable (.ofLocation notes) = .ok notes := by rfl
    have habove : (tree.set notes (.file .empty)).writable (.ofLocation above) = .ok above := by rfl
    exact (Tree.adds_set hnotes (by decide) .empty).trans
      (Tree.adds_set habove (by decide) .empty)
  have haside : ∀ loc ∈ ({notes, above} : Set Location), IsAside start (some file) loc := by
    rintro loc (rfl | rfl)
    · refine .inl fun dir _ hdir => ?_
      obtain ⟨-, hname⟩ := List.append_inj' (congrArg Location.names hdir :
        ["w", "project", "app"] ++ ["notes.txt"] = dir.names ++ [fileName]) rfl
      exact absurd hname (by decide)
    · exact .inr ⟨file, rfl, by decide⟩
  obtain ⟨hends, hdeepest, -, hstays⟩ :=
    nearestFile?_deepest tree ⟨["w", "project", "lib"]⟩ (.ofString "../app/missing")
  obtain ⟨dir, hdir, hchild⟩ := (hdeepest file).1 hresult
  refine ⟨(hends _).2 hresult, ?_, hadds, haside, ?_⟩
  · have hw : dir = ⟨["w"]⟩ := by
      rw [← Location.parent_child dir fileName, ← hchild]
      rfl
    rwa [hw] at hdir
  · exact (hstays other _ hadds fun loc hloc => hresult ▸ haside loc hloc).trans hresult

end AliasSettings

end RegistryBlock
