import RegistryBlock.Proofs.Project.Eligible

/-!
# Walks under one more rule

A rule decides both which directories a walk goes into and which files it keeps. One more rule at
the end of the list has the last word wherever it applies, so it only takes files away, or only
brings files back, with everything below the directories that it applies to. The files that stay
are found at the same places and in the same order.
-/

namespace RegistryBlock

/-- Whether some rules leave out every path that others leave out. -/
def LeavesOutMore (rules others : List IgnoreRule) : Prop :=
  ∀ path isDirectory, isIgnored others path isDirectory = true →
    isIgnored rules path isDirectory = true

theorem leavesOutMore_append {rule : IgnoreRule} (h : rule.negated = false)
    (rules : List IgnoreRule) : LeavesOutMore (rules ++ [rule]) rules := by
  intro path isDirectory hignored
  rw [isIgnored_append_singleton, h, hignored]
  exact ite_self true

theorem append_leavesOutMore {rule : IgnoreRule} (h : rule.negated = true)
    (rules : List IgnoreRule) : LeavesOutMore rules (rules ++ [rule]) := by
  intro path isDirectory hignored
  rw [isIgnored_append_singleton, h] at hignored
  split at hignored
  · cases hignored
  · exact hignored

namespace Tree

/-- A file that a walk comes to: where it stands, its path seen from where the walk began, and what
it holds. -/
@[ext]
structure Visit where
  location : Location
  path : String
  bytes : ByteArray

def Visit.entry (visit : Visit) : String × ByteArray := (visit.path, visit.bytes)

mutual

/-- The files that a walk comes to at or below an entry. The files of a directory come before those
of the directories in it. -/
def visitsAt (rules : List IgnoreRule) (location : Location) (path name : String) :
    Tree → List Visit
  | .file bytes =>
    if excludedFiles.contains name || isIgnored rules path.toList false then []
    else [⟨location, path, bytes⟩]
  | .dir entries =>
    if excludedDirectories.contains name || isIgnored rules path.toList true then []
    else visitsAmong rules location path false entries ++
      visitsAmong rules location path true entries

/-- The files that a walk comes to at or below the entries of one kind. -/
def visitsAmong (rules : List IgnoreRule) (location : Location) (directory : String)
    (directories : Bool) : List (String × Tree) → List Visit
  | [] => []
  | (name, tree) :: rest =>
    (if tree.isDir = directories then
      visitsAt rules (location.child name) (below directory name) name tree else []) ++
      visitsAmong rules location directory directories rest

end

def visitsIn (rules : List IgnoreRule) (location : Location) (directory : String)
    (entries : List (String × Tree)) : List Visit :=
  visitsAmong rules location directory false entries ++
    visitsAmong rules location directory true entries

def visits (rules : List IgnoreRule) (root : Location) : Tree → List Visit
  | .dir entries => visitsIn rules root "" entries
  | .file _ => []

variable {rules others : List IgnoreRule}

/-! ### The list of files -/

mutual

theorem map_entry_visitsAt (rules : List IgnoreRule) (location : Location) (path name : String) :
    (tree : Tree) →
      (tree.visitsAt rules location path name).map Visit.entry = tree.eligibleAt rules path name
  | .file bytes => by
    rw [visitsAt, eligibleAt]
    split <;> rfl
  | .dir entries => by
    rw [visitsAt, eligibleAt]
    split
    · rfl
    · rw [List.map_append, map_entry_visitsAmong, map_entry_visitsAmong]

theorem map_entry_visitsAmong (rules : List IgnoreRule) (location : Location)
    (directory : String) (directories : Bool) : (entries : List (String × Tree)) →
      (visitsAmong rules location directory directories entries).map Visit.entry =
        eligibleAmong rules directory directories entries
  | [] => rfl
  | (name, tree) :: rest => by
    rw [visitsAmong, eligibleAmong, List.map_append, map_entry_visitsAmong]
    split
    · rw [map_entry_visitsAt]
    · rfl

end

/-- A walk that keeps the locations gives the list of eligible files. -/
theorem map_entry_visits (rules : List IgnoreRule) (root : Location) (tree : Tree) :
    (tree.visits rules root).map Visit.entry = tree.eligible rules := by
  cases tree with
  | file bytes => rfl
  | dir entries =>
    rw [visits, eligible, visitsIn, eligibleIn, List.map_append, map_entry_visitsAmong,
      map_entry_visitsAmong]

/-! ### More rules -/

mutual

theorem visitsAt_sublist (h : LeavesOutMore rules others) (location : Location)
    (path name : String) : (tree : Tree) →
      (tree.visitsAt rules location path name).Sublist (tree.visitsAt others location path name)
  | .file bytes => by
    rw [visitsAt, visitsAt]
    split
    · exact List.nil_sublist _
    · next hkept =>
      rw [if_neg fun hother => hkept ?_]
      simp only [Bool.or_eq_true] at hother ⊢
      exact hother.imp_right (h path.toList false)
  | .dir entries => by
    rw [visitsAt, visitsAt]
    split
    · exact List.nil_sublist _
    · next hkept =>
      rw [if_neg fun hother => hkept ?_]
      · exact (visitsAmong_sublist h location path false entries).append
          (visitsAmong_sublist h location path true entries)
      · simp only [Bool.or_eq_true] at hother ⊢
        exact hother.imp_right (h path.toList true)

theorem visitsAmong_sublist (h : LeavesOutMore rules others) (location : Location)
    (directory : String) (directories : Bool) : (entries : List (String × Tree)) →
      (visitsAmong rules location directory directories entries).Sublist
        (visitsAmong others location directory directories entries)
  | [] => List.Sublist.refl _
  | (name, tree) :: rest => by
    rw [visitsAmong, visitsAmong]
    refine List.Sublist.append ?_ (visitsAmong_sublist h location directory directories rest)
    split
    · exact visitsAt_sublist h _ _ name tree
    · exact List.nil_sublist _

end

theorem visits_sublist (h : LeavesOutMore rules others) (root : Location) (tree : Tree) :
    (tree.visits rules root).Sublist (tree.visits others root) := by
  cases tree with
  | file bytes => exact List.Sublist.refl _
  | dir entries =>
    exact (visitsAmong_sublist h root "" false entries).append
      (visitsAmong_sublist h root "" true entries)

/-! ### Places and paths -/

/-- Whether a walk from the location of a directory came to a file along the given names. -/
structure Visit.IsAlong (visit : Visit) (tree : Tree) (root : Location) (base names : List String) :
    Prop where
  location : visit.location.names = root.names ++ names
  path : visit.path = pathOf (base ++ names)
  descend? : tree.descend? names = some (.file visit.bytes)

theorem exists_entry_of_mem_visitsAmong {location : Location} {directory : String}
    {directories : Bool} {entries : List (String × Tree)} {visit : Visit}
    (h : visit ∈ visitsAmong rules location directory directories entries) :
    ∃ entry ∈ entries, visit ∈
      visitsAt rules (location.child entry.1) (below directory entry.1) entry.1 entry.2 := by
  induction entries with
  | nil => cases h
  | cons entry entries ih =>
    rw [visitsAmong, List.mem_append] at h
    rcases h with h | h
    · split at h
      · exact ⟨entry, List.mem_cons_self, h⟩
      · cases h
    · obtain ⟨found, hfound, hvisit⟩ := ih h
      exact ⟨found, List.mem_cons_of_mem _ hfound, hvisit⟩

theorem exists_entry_of_mem_visitsIn {location : Location} {directory : String}
    {entries : List (String × Tree)} {visit : Visit}
    (h : visit ∈ visitsIn rules location directory entries) :
    ∃ entry ∈ entries, visit ∈
      visitsAt rules (location.child entry.1) (below directory entry.1) entry.1 entry.2 :=
  (List.mem_append.1 h).elim exists_entry_of_mem_visitsAmong exists_entry_of_mem_visitsAmong

theorem exists_isAlong_of_mem_visitsIn {tree : Tree} (h : tree.WellFormed)
    {entries : List (String × Tree)} (htree : tree = .dir entries) {root : Location}
    {base : List String} (hbase : ∀ name ∈ base, IsEntryName name) {visit : Visit}
    (hvisit : visit ∈ visitsIn rules root (pathOf base) entries) :
    ∃ names, visit.IsAlong tree root base names := by
  induction h generalizing entries root base with
  | file bytes => cases htree
  | @dir entries hnodup hnames hinner ih =>
    cases htree
    obtain ⟨⟨name, tree⟩, hentry, hvisit⟩ := exists_entry_of_mem_visitsIn hvisit
    have hbelow : ∀ inner ∈ base ++ [name], IsEntryName inner :=
      List.forall_mem_append.2 ⟨hbase, by simpa using hnames _ hentry⟩
    dsimp only at hvisit
    rw [below_pathOf hbase] at hvisit
    cases tree with
    | file bytes =>
      rw [visitsAt] at hvisit
      split at hvisit
      · cases hvisit
      · obtain rfl := List.mem_singleton.1 hvisit
        exact ⟨[name], rfl, rfl, (descend?_dir_cons_eq_some_iff hnodup).2 ⟨_, hentry, rfl⟩⟩
    | dir inner =>
      rw [visitsAt] at hvisit
      split at hvisit
      · cases hvisit
      · rw [← visitsIn] at hvisit
        obtain ⟨names, hlocation, hpath, hdescend⟩ := ih _ hentry rfl hbelow hvisit
        refine ⟨name :: names, ?_, ?_, ?_⟩
        · rw [hlocation, Location.child, List.append_assoc, List.singleton_append]
        · rw [hpath, List.append_assoc, List.singleton_append]
        · exact (descend?_dir_cons_eq_some_iff hnodup).2 ⟨_, hentry, hdescend⟩

theorem exists_isAlong_of_mem_visits {tree : Tree} (h : tree.WellFormed) {root : Location}
    {visit : Visit} (hvisit : visit ∈ tree.visits rules root) :
    ∃ names, names ≠ [] ∧ visit.IsAlong tree root [] names := by
  cases tree with
  | file bytes => cases hvisit
  | dir entries =>
    obtain ⟨names, halong⟩ := exists_isAlong_of_mem_visitsIn h rfl (List.forall_mem_nil _) hvisit
    refine ⟨names, ?_, halong⟩
    rintro rfl
    cases halong.descend?

/-- Two walks through a tree, under whatever rules, come to the same file if it stands at the same
place, or if it has the same path. -/
theorem visit_eq {tree : Tree} (h : tree.WellFormed) {root : Location} {visit other : Visit}
    (hvisit : visit ∈ tree.visits rules root) (hother : other ∈ tree.visits others root)
    (hsame : visit.location = other.location ∨ visit.path = other.path) : visit = other := by
  obtain ⟨names, hne, hlocation, hpath, hdescend⟩ := exists_isAlong_of_mem_visits h hvisit
  obtain ⟨names', hne', hlocation', hpath', hdescend'⟩ := exists_isAlong_of_mem_visits h hother
  obtain rfl : names = names' := by
    rcases hsame with hsame | hsame
    · rw [hsame, hlocation'] at hlocation
      exact (List.append_cancel_left hlocation).symm
    · rw [hpath, hpath'] at hsame
      exact pathOf_inj hne hne' (h.isEntryName hdescend) (h.isEntryName hdescend') hsame
  have hplace : visit.location = other.location :=
    congrArg Location.mk (hlocation.trans hlocation'.symm)
  have hbytes : visit.bytes = other.bytes :=
    Tree.file.inj (Option.some.inj (hdescend.symm.trans hdescend'))
  exact Visit.ext hplace (hpath.trans hpath'.symm) hbytes

/-- One more rule that is not negated only takes files away from a walk, and a negated one only
brings files back; a file that the walk comes to with and without the rule has the same path and the
same place. -/
theorem visits_append_rule {tree : Tree} (h : tree.WellFormed) (root : Location)
    (rules : List IgnoreRule) (rule : IgnoreRule) :
    (∀ rules, (tree.visits rules root).map Visit.entry = tree.eligible rules) ∧
    (rule.negated = false →
      (tree.visits (rules ++ [rule]) root).Sublist (tree.visits rules root)) ∧
    (rule.negated = true →
      (tree.visits rules root).Sublist (tree.visits (rules ++ [rule]) root)) ∧
    ∀ visit ∈ tree.visits rules root, ∀ other ∈ tree.visits (rules ++ [rule]) root,
      visit.location = other.location ∨ visit.path = other.path → visit = other := by
  refine ⟨fun rules => map_entry_visits rules root tree, fun hrule => ?_, fun hrule => ?_, ?_⟩
  · exact visits_sublist (leavesOutMore_append hrule rules) root tree
  · exact visits_sublist (append_leavesOutMore hrule rules) root tree
  · exact fun visit hvisit other hother => visit_eq h hvisit hother

theorem visits_append_rule_logs :
    let tree : Tree := .dir [("a.ts", .file ⟨#[]⟩), ("logs", .dir [("b.log", .file ⟨#[]⟩)])]
    let root : Location := ⟨["kit"]⟩
    let rules : List IgnoreRule := [{ pattern := "*.log" }]
    let back : IgnoreRule := { pattern := "logs", negated := true }
    let away : IgnoreRule := { pattern := "logs", directoryOnly := true }
    tree.WellFormed ∧ back.negated = true ∧ away.negated = false ∧
      (tree.visits rules root).map Visit.path = ["a.ts"] ∧
      (tree.visits (rules ++ [back]) root).map Visit.location =
        [⟨["kit", "a.ts"]⟩, ⟨["kit", "logs", "b.log"]⟩] ∧
      (tree.visits rules root).Sublist (tree.visits (rules ++ [back]) root) ∧
      (tree.visits (rules ++ [back] ++ [away]) root).Sublist
        (tree.visits (rules ++ [back]) root) ∧
      (tree.visits (rules ++ [back] ++ [away]) root).map Visit.path = ["a.ts"] := by
  intro tree root rules back away
  have h : tree.WellFormed := by decide +kernel
  obtain ⟨-, -, hback, -⟩ := visits_append_rule h root rules back
  obtain ⟨-, haway, -⟩ := visits_append_rule h root (rules ++ [back]) away
  exact ⟨h, rfl, rfl, by decide +kernel, by decide +kernel, hback rfl, haway rfl,
    by decide +kernel⟩

end Tree

end RegistryBlock
