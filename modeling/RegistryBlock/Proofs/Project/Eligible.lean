import Mathlib.Data.List.Nodup
import RegistryBlock.Project.Files
import RegistryBlock.Proofs.Ignore.LastRule
import RegistryBlock.Proofs.Tree.Listing

/-!
# Eligible files

The walk through a project leaves out whole directories on its way down. A file is on its list if
and only if no directory above it is left out, nor the file itself, and it is on it once.
-/

namespace RegistryBlock

/-- The path of names seen from the project, empty for the project itself. -/
def pathOf (names : List String) : String := "/".intercalate names

theorem pathOf_append_singleton {names : List String} (h : names ≠ []) (name : String) :
    pathOf (names ++ [name]) = pathOf names ++ "/" ++ name := by
  rw [pathOf, String.intercalate_append_of_ne_nil h (by simp), String.intercalate_singleton]
  rfl

theorem pathOf_ne_empty {names : List String} (hne : names ≠ [])
    (h : ∀ name ∈ names, Tree.IsEntryName name) : pathOf names ≠ "" := by
  obtain ⟨front, name, rfl⟩ := List.eq_nil_or_concat' names |>.resolve_left hne
  by_cases hfront : front = []
  · rw [hfront]
    simpa [pathOf, String.intercalate_singleton] using (h name (by simp)).1
  · rw [pathOf_append_singleton hfront]
    intro hempty
    simpa using congrArg String.toList hempty

theorem below_pathOf {names : List String} (h : ∀ name ∈ names, Tree.IsEntryName name)
    (name : String) : below (pathOf names) name = pathOf (names ++ [name]) := by
  by_cases hne : names = []
  · subst hne
    simp [below, pathOf, String.intercalate_nil, String.intercalate_singleton]
  · rw [below, if_neg (pathOf_ne_empty hne h), pathOf_append_singleton hne]

theorem map_toList_eq_splitOn_pathOf {names : List String} (hne : names ≠ [])
    (h : ∀ name ∈ names, Tree.IsEntryName name) :
    names.map String.toList = (pathOf names).toList.splitOn '/' := by
  have hslash : "/".toList = ['/'] := rfl
  rw [pathOf, String.toList_intercalate, hslash,
    List.splitOn_intercalate '/' _ (by simpa using hne)]
  intro piece hpiece
  obtain ⟨name, hname, rfl⟩ := List.mem_map.1 hpiece
  exact (h name hname).2

theorem pathOf_inj {names others : List String} (hne : names ≠ []) (hne' : others ≠ [])
    (h : ∀ name ∈ names, Tree.IsEntryName name) (h' : ∀ name ∈ others, Tree.IsEntryName name)
    (heq : pathOf names = pathOf others) : names = others := by
  have hlist : names.map String.toList = others.map String.toList := by
    rw [map_toList_eq_splitOn_pathOf hne h, map_toList_eq_splitOn_pathOf hne' h', heq]
  exact List.map_injective_iff.2 (fun _ _ => String.toList_inj.1) hlist

/-- A path is cut at a slash between two of its names. -/
theorem exists_front_of_pathOf_eq {names : List String} (hne : names ≠ [])
    (h : ∀ name ∈ names, Tree.IsEntryName name) {directory rest : String}
    (heq : pathOf names = directory ++ "/" ++ rest) :
    ∃ front back, names = front ++ back ∧ front ≠ [] ∧ back ≠ [] ∧ directory = pathOf front := by
  have hsplit := map_toList_eq_splitOn_pathOf hne h
  have hchars : (directory ++ "/" ++ rest).toList = directory.toList ++ '/' :: rest.toList := by
    simp
  rw [heq, hchars, List.splitOn_append_cons_self] at hsplit
  obtain ⟨front, back, rfl, hfront, hback⟩ := List.map_eq_append_iff.1 hsplit
  refine ⟨front, back, rfl, ?_, ?_, String.toList_inj.1 ?_⟩
  · rintro rfl
    exact List.splitOn_ne_nil _ _ hfront.symm
  · rintro rfl
    exact List.splitOn_ne_nil _ _ hback.symm
  · rw [pathOf, String.toList_intercalate, hfront]
    exact (List.intercalate_splitOn '/').symm

/-- Whether the walk goes into the directory with the given names. -/
def IsWalked (rules : List IgnoreRule) (names : List String) (name : String) : Prop :=
  name ∉ excludedDirectories ∧ ¬ LeavesOut rules (pathOf (names ++ [name])).toList true

/-- Whether the walk goes on from the directory `base` through all the given ones. -/
def IsOpen (rules : List IgnoreRule) (base above : List String) : Prop :=
  ∀ outer name, outer ++ [name] <+: above → IsWalked rules (base ++ outer) name

/-- A file below the directory `base` that the walk comes to and that is not left out. -/
structure IsEligible (rules : List IgnoreRule) (base above : List String) (name : String) :
    Prop where
  name_not_mem : name ∉ excludedFiles
  not_leavesOut : ¬ LeavesOut rules (pathOf (base ++ above ++ [name])).toList false
  isOpen : IsOpen rules base above

theorem isOpen_nil (rules : List IgnoreRule) (base : List String) : IsOpen rules base [] := by
  intro outer name h
  simp at h

theorem isOpen_cons {rules : List IgnoreRule} {base above : List String} {name : String} :
    IsOpen rules base (name :: above) ↔
      IsWalked rules base name ∧ IsOpen rules (base ++ [name]) above := by
  constructor
  · intro h
    refine ⟨by simpa using h [] name (by simp), fun outer inner hfront => ?_⟩
    have hinner := h (name :: outer) inner (by simpa using hfront)
    rwa [List.append_cons] at hinner
  · rintro ⟨hname, habove⟩ outer inner hfront
    cases outer with
    | nil =>
      rw [List.nil_append, List.cons_prefix_cons] at hfront
      rw [hfront.1, List.append_nil]
      exact hname
    | cons first outer =>
      rw [List.cons_append, List.cons_prefix_cons] at hfront
      rw [hfront.1, List.append_cons]
      exact habove outer inner hfront.2

theorem isEligible_cons {rules : List IgnoreRule} {base above : List String}
    {first name : String} :
    IsEligible rules base (first :: above) name ↔
      IsWalked rules base first ∧ IsEligible rules (base ++ [first]) above name := by
  constructor
  · rintro ⟨hname, hpath, hopen⟩
    obtain ⟨hfirst, habove⟩ := isOpen_cons.1 hopen
    exact ⟨hfirst, hname, by rwa [← List.append_cons], habove⟩
  · rintro ⟨hfirst, hname, hpath, habove⟩
    exact ⟨hname, by rwa [List.append_cons base first above], isOpen_cons.2 ⟨hfirst, habove⟩⟩

/-- No directory on the path of an eligible file is left out. -/
theorem IsEligible.not_leavesOut_directory {rules : List IgnoreRule} {above : List String}
    {name : String} (h : IsEligible rules [] above name)
    (hnames : ∀ inner ∈ above ++ [name], Tree.IsEntryName inner) {directory rest : String}
    (heq : pathOf (above ++ [name]) = directory ++ "/" ++ rest) :
    ¬ LeavesOut rules directory.toList true := by
  obtain ⟨front, back, hsplit, hfront, hback, rfl⟩ :=
    exists_front_of_pathOf_eq (by simp) hnames heq
  obtain ⟨outer, inner, rfl⟩ := List.eq_nil_or_concat' front |>.resolve_left hfront
  have hprefix : outer ++ [inner] <+: above := by
    have habove : (above ++ [name]).dropLast = above := List.dropLast_concat
    rw [← habove, hsplit, List.dropLast_append_of_ne_nil hback]
    exact List.prefix_append _ _
  exact (h.isOpen outer inner hprefix).2

namespace Tree

variable {rules : List IgnoreRule}

/-! ### The order of a walk -/

/-- The entries of a directory as a walk comes to them: the files before the directories. -/
def walkOrder (entries : List (String × Tree)) : List (String × Tree) :=
  entries.filter (·.2.isDir = false) ++ entries.filter (·.2.isDir = true)

theorem walkOrder_perm (entries : List (String × Tree)) : (walkOrder entries).Perm entries := by
  have hkinds : entries.filter (·.2.isDir = true) =
      entries.filter (fun entry => !decide (entry.2.isDir = false)) := by simp
  rw [walkOrder, hkinds]
  exact List.filter_append_perm _ entries

theorem mem_walkOrder {entries : List (String × Tree)} {entry : String × Tree} :
    entry ∈ walkOrder entries ↔ entry ∈ entries :=
  (walkOrder_perm entries).mem_iff

theorem eligibleAmong_eq_flatMap (rules : List IgnoreRule) (directory : String)
    (directories : Bool) (entries : List (String × Tree)) :
    eligibleAmong rules directory directories entries =
      (entries.filter (·.2.isDir = directories)).flatMap fun entry =>
        eligibleAt rules (below directory entry.1) entry.1 entry.2 := by
  induction entries with
  | nil => rfl
  | cons entry entries ih =>
    rw [eligibleAmong, ih, List.filter_cons]
    by_cases hkind : entry.2.isDir = directories <;> simp [hkind]

theorem eligibleIn_eq_flatMap (rules : List IgnoreRule) (directory : String)
    (entries : List (String × Tree)) :
    eligibleIn rules directory entries =
      (walkOrder entries).flatMap fun entry =>
        eligibleAt rules (below directory entry.1) entry.1 entry.2 := by
  rw [eligibleIn, eligibleAmong_eq_flatMap, eligibleAmong_eq_flatMap, walkOrder,
    List.flatMap_append]

/-! ### Eligible files -/

theorem mem_eligibleAt_file {path name : String} {bytes : ByteArray}
    {found : String × ByteArray} :
    found ∈ eligibleAt rules path name (.file bytes) ↔
      name ∉ excludedFiles ∧ ¬ LeavesOut rules path.toList false ∧ found = (path, bytes) := by
  rw [eligibleAt, ← isIgnored_iff]
  by_cases hname : name ∈ excludedFiles <;>
    by_cases hpath : isIgnored rules path.toList false = true <;> simp [hname, hpath]

theorem mem_eligibleAt_dir {names : List String} {name : String}
    {entries : List (String × Tree)} {found : String × ByteArray} :
    found ∈ eligibleAt rules (pathOf (names ++ [name])) name (.dir entries) ↔
      IsWalked rules names name ∧
        found ∈ eligibleIn rules (pathOf (names ++ [name])) entries := by
  rw [eligibleAt, ← eligibleIn, IsWalked, ← isIgnored_iff]
  by_cases hname : name ∈ excludedDirectories <;>
    by_cases hpath : isIgnored rules (pathOf (names ++ [name])).toList true = true <;>
      simp [hname, hpath]

/-- The walk through a directory finds the eligible files below it, with their paths. -/
theorem mem_eligibleIn {tree : Tree} (h : tree.WellFormed) {entries : List (String × Tree)}
    (htree : tree = .dir entries) {base : List String} (hbase : ∀ name ∈ base, IsEntryName name)
    {found : String × ByteArray} :
    found ∈ eligibleIn rules (pathOf base) entries ↔
      ∃ above name bytes, tree.descend? (above ++ [name]) = some (.file bytes) ∧
        IsEligible rules base above name ∧ found = (pathOf (base ++ above ++ [name]), bytes) := by
  induction h generalizing entries base with
  | file bytes => cases htree
  | @dir entries hnodup hnames hinner ih =>
    cases htree
    have hbelow : ∀ entry ∈ entries, ∀ name ∈ base ++ [entry.1], IsEntryName name :=
      fun entry hentry => List.forall_mem_append.2 ⟨hbase, by simpa using hnames entry hentry⟩
    simp only [eligibleIn_eq_flatMap, List.mem_flatMap, mem_walkOrder]
    constructor
    · rintro ⟨⟨first, tree⟩, hentry, hfound⟩
      dsimp only at hfound
      rw [below_pathOf hbase] at hfound
      cases tree with
      | file bytes =>
        obtain ⟨hname, hpath, rfl⟩ := mem_eligibleAt_file.1 hfound
        refine ⟨[], first, bytes, ?_, ⟨hname, by simpa using hpath, isOpen_nil _ _⟩, by simp⟩
        exact (descend?_dir_cons_eq_some_iff hnodup).2 ⟨_, hentry, rfl⟩
      | dir inner =>
        obtain ⟨hwalked, hfound⟩ := mem_eligibleAt_dir.1 hfound
        obtain ⟨above, name, bytes, hdescend, heligible, rfl⟩ :=
          (ih _ hentry rfl (hbelow _ hentry)).1 hfound
        refine ⟨first :: above, name, bytes, ?_, isEligible_cons.2 ⟨hwalked, heligible⟩, ?_⟩
        · exact (descend?_dir_cons_eq_some_iff hnodup).2 ⟨_, hentry, hdescend⟩
        · rw [List.append_cons base first above]
    · rintro ⟨above, name, bytes, hdescend, heligible, rfl⟩
      cases above with
      | nil =>
        obtain ⟨tree, hentry, hfile⟩ := (descend?_dir_cons_eq_some_iff hnodup).1 hdescend
        cases hfile
        refine ⟨(name, .file bytes), hentry, ?_⟩
        rw [below_pathOf hbase, mem_eligibleAt_file, List.append_nil]
        exact ⟨heligible.name_not_mem, by simpa using heligible.not_leavesOut, rfl⟩
      | cons first above =>
        obtain ⟨tree, hentry, hrest⟩ := (descend?_dir_cons_eq_some_iff hnodup).1 hdescend
        obtain ⟨hwalked, heligible⟩ := isEligible_cons.1 heligible
        refine ⟨(first, tree), hentry, ?_⟩
        rw [below_pathOf hbase]
        cases tree with
        | file bytes => cases above <;> cases hrest
        | dir inner =>
          refine mem_eligibleAt_dir.2 ⟨hwalked, (ih _ hentry rfl (hbelow _ hentry)).2 ?_⟩
          refine ⟨above, name, bytes, hrest, heligible, ?_⟩
          rw [List.append_cons base first above]

theorem exists_path_of_mem_eligibleAt {tree : Tree} (h : tree.WellFormed) {base : List String}
    {name : String} (hbase : ∀ above ∈ base ++ [name], IsEntryName above)
    {found : String × ByteArray}
    (hfound : found ∈ eligibleAt rules (pathOf (base ++ [name])) name tree) :
    ∃ rest, found.1 = pathOf (base ++ [name] ++ rest) ∧
      ∀ inner ∈ base ++ [name] ++ rest, IsEntryName inner := by
  cases tree with
  | file bytes =>
    obtain ⟨-, -, rfl⟩ := mem_eligibleAt_file.1 hfound
    exact ⟨[], by rw [List.append_nil], by rwa [List.append_nil]⟩
  | dir entries =>
    obtain ⟨-, hfound⟩ := mem_eligibleAt_dir.1 hfound
    obtain ⟨above, last, bytes, hdescend, -, rfl⟩ := (mem_eligibleIn h rfl hbase).1 hfound
    refine ⟨above ++ [last], by rw [List.append_assoc _ above], ?_⟩
    exact List.forall_mem_append.2 ⟨hbase, h.isEntryName hdescend⟩

theorem path_ne_of_mem_eligibleAt {tree other : Tree} (h : tree.WellFormed)
    (hother : other.WellFormed) {base : List String} {name name' : String}
    (hbase : ∀ above ∈ base ++ [name], IsEntryName above)
    (hbase' : ∀ above ∈ base ++ [name'], IsEntryName above) (hne : name ≠ name')
    {found found' : String × ByteArray}
    (hfound : found ∈ eligibleAt rules (pathOf (base ++ [name])) name tree)
    (hfound' : found' ∈ eligibleAt rules (pathOf (base ++ [name'])) name' other) :
    found.1 ≠ found'.1 := by
  obtain ⟨rest, hrest, hnames⟩ := exists_path_of_mem_eligibleAt h hbase hfound
  obtain ⟨rest', hrest', hnames'⟩ := exists_path_of_mem_eligibleAt hother hbase' hfound'
  rw [hrest, hrest']
  intro heq
  have hsame := pathOf_inj (by simp) (by simp) hnames hnames' heq
  rw [List.append_assoc, List.append_assoc, List.append_right_inj] at hsame
  exact hne (List.cons.inj hsame).1

/-- The walk comes to no path twice. -/
theorem nodup_map_fst_eligibleIn {tree : Tree} (h : tree.WellFormed)
    {entries : List (String × Tree)} (htree : tree = .dir entries) {base : List String}
    (hbase : ∀ name ∈ base, IsEntryName name) :
    ((eligibleIn rules (pathOf base) entries).map Prod.fst).Nodup := by
  induction h generalizing entries base with
  | file bytes => cases htree
  | @dir entries hnodup hnames hinner ih =>
    cases htree
    have hbelow : ∀ entry ∈ entries, ∀ name ∈ base ++ [entry.1], IsEntryName name :=
      fun entry hentry => List.forall_mem_append.2 ⟨hbase, by simpa using hnames entry hentry⟩
    rw [eligibleIn_eq_flatMap, List.map_flatMap, List.nodup_flatMap]
    constructor
    · rintro ⟨name, tree⟩ hentry
      rw [mem_walkOrder] at hentry
      rw [below_pathOf hbase]
      cases tree with
      | file bytes =>
        rw [eligibleAt]
        split <;> simp
      | dir inner =>
        rw [eligibleAt]
        split
        · simp
        · exact ih _ hentry rfl (hbelow _ hentry)
    · -- the paths of two entries differ at the names of the entries
      have horder := ((walkOrder_perm entries).map Prod.fst).nodup_iff.2 hnodup
      apply (List.pairwise_map.1 horder).imp_of_mem
      intro entry other hentry hother hne path hmem hmem'
      rw [mem_walkOrder] at hentry hother
      obtain ⟨found, hfound, rfl⟩ := List.mem_map.1 hmem
      obtain ⟨found', hfound', heq⟩ := List.mem_map.1 hmem'
      rw [below_pathOf hbase] at hfound hfound'
      exact path_ne_of_mem_eligibleAt (hinner _ hentry) (hinner _ hother) (hbelow _ hentry)
        (hbelow _ hother) hne hfound hfound' heq.symm

theorem mem_eligible {tree : Tree} (h : tree.WellFormed) {found : String × ByteArray} :
    found ∈ tree.eligible rules ↔
      ∃ above name bytes, tree.descend? (above ++ [name]) = some (.file bytes) ∧
        IsEligible rules [] above name ∧ found = (pathOf (above ++ [name]), bytes) := by
  cases tree with
  | file bytes =>
    constructor
    · intro hfound
      cases hfound
    · rintro ⟨above, name, content, hdescend, -⟩
      cases above <;> cases hdescend
  | dir entries => exact mem_eligibleIn h rfl (List.forall_mem_nil _)

theorem nodup_map_fst_eligible {tree : Tree} (h : tree.WellFormed) (rules : List IgnoreRule) :
    ((tree.eligible rules).map Prod.fst).Nodup := by
  cases tree with
  | file bytes => exact List.nodup_nil
  | dir entries => exact nodup_map_fst_eligibleIn h rfl (List.forall_mem_nil _)

end Tree

end RegistryBlock
