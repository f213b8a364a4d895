import RegistryBlock.Proofs.Tree.Lookup

/-!
# Listings of directories

A file system gives every entry of a directory a name of its own and lists the entries in any order.
Trees that differ in that order only look the same at all names.
-/

namespace RegistryBlock.Tree

/-- Whether a name may stand in a directory. -/
def IsEntryName (name : String) : Prop := name ≠ "" ∧ '/' ∉ name.toList

instance (name : String) : Decidable (IsEntryName name) :=
  inferInstanceAs (Decidable (name ≠ "" ∧ '/' ∉ name.toList))

/-- The trees of a file system: in every directory each name stands once, and none is empty or has
a slash in it. -/
inductive WellFormed : Tree → Prop
  | file (bytes : ByteArray) : WellFormed (.file bytes)
  | dir {entries : List (String × Tree)} (nodup : (entries.map Prod.fst).Nodup)
      (isEntryName : ∀ entry ∈ entries, IsEntryName entry.1)
      (inner : ∀ entry ∈ entries, WellFormed entry.2) : WellFormed (.dir entries)

/-- The trees differ at most in the order in which they list the entries of directories. -/
inductive Rearranged : Tree → Tree → Prop
  | file (bytes : ByteArray) : Rearranged (.file bytes) (.file bytes)
  | dir {entries others : List (String × Tree)}
      (names : (entries.map Prod.fst).Perm (others.map Prod.fst))
      (inner : ∀ name tree other, (name, tree) ∈ entries → (name, other) ∈ others →
        Rearranged tree other) : Rearranged (.dir entries) (.dir others)

theorem mem_of_lookup_eq_some {entries : List (String × Tree)} {name : String} {tree : Tree}
    (h : entries.lookup name = some tree) : (name, tree) ∈ entries := by
  obtain ⟨front, rest, rfl, -⟩ := List.lookup_eq_some_iff.1 h
  exact List.mem_append_right _ List.mem_cons_self

theorem lookup_eq_some_of_mem {entries : List (String × Tree)} {name : String} {tree : Tree}
    (hnodup : (entries.map Prod.fst).Nodup) (h : (name, tree) ∈ entries) :
    entries.lookup name = some tree := by
  obtain ⟨front, rest, rfl⟩ := List.append_of_mem h
  refine List.lookup_eq_some_iff.2 ⟨front, rest, rfl, fun entry hentry => ?_⟩
  rw [List.map_append, List.nodup_append] at hnodup
  have hne := hnodup.2.2 entry.1 (List.mem_map_of_mem hentry) name List.mem_cons_self
  simpa using Ne.symm hne

theorem descend?_dir_cons_eq_some_iff {entries : List (String × Tree)} {name : String}
    {names : List String} {tree : Tree} (hnodup : (entries.map Prod.fst).Nodup) :
    (dir entries).descend? (name :: names) = some tree ↔
      ∃ inner, (name, inner) ∈ entries ∧ inner.descend? names = some tree := by
  rw [descend?, Option.bind_eq_some_iff]
  constructor
  · rintro ⟨inner, hentry, hrest⟩
    exact ⟨inner, mem_of_lookup_eq_some hentry, hrest⟩
  · rintro ⟨inner, hentry, hrest⟩
    exact ⟨inner, lookup_eq_some_of_mem hnodup hentry, hrest⟩

theorem exists_mem_of_mem_keys {entries : List (String × Tree)} {name : String}
    (h : name ∈ entries.map Prod.fst) : ∃ tree, (name, tree) ∈ entries := by
  obtain ⟨⟨_, tree⟩, hentry, rfl⟩ := List.mem_map.1 h
  exact ⟨tree, hentry⟩

theorem lookup_eq_none_of_not_mem {entries : List (String × Tree)} {name : String}
    (h : name ∉ entries.map Prod.fst) : entries.lookup name = none := by
  apply List.lookup_eq_none_iff.2
  intro entry hentry
  have hne : name ≠ entry.1 := fun hname => h (hname ▸ List.mem_map_of_mem hentry)
  simpa using hne

namespace WellFormed

theorem dir_iff {entries : List (String × Tree)} : (Tree.dir entries).WellFormed ↔
    (entries.map Prod.fst).Nodup ∧ (∀ entry ∈ entries, IsEntryName entry.1) ∧
      ∀ entry ∈ entries, entry.2.WellFormed := by
  constructor
  · intro h
    cases h with
    | dir hnodup hnames hinner => exact ⟨hnodup, hnames, hinner⟩
  · rintro ⟨hnodup, hnames, hinner⟩
    exact .dir hnodup hnames hinner

mutual

def decidable : (tree : Tree) → Decidable tree.WellFormed
  | .file bytes => .isTrue (.file bytes)
  | .dir entries =>
    let _ := decidableEntries entries
    decidable_of_iff' _ dir_iff

def decidableEntries :
    (entries : List (String × Tree)) → Decidable (∀ entry ∈ entries, entry.2.WellFormed)
  | [] => .isTrue (List.forall_mem_nil _)
  | (_, tree) :: entries =>
    let _ := decidable tree
    let _ := decidableEntries entries
    decidable_of_iff' _ List.forall_mem_cons

end

instance (tree : Tree) : Decidable tree.WellFormed := decidable tree

theorem entry? {tree inner : Tree} {name : String} (h : tree.WellFormed)
    (hentry : tree.entry? name = some inner) : inner.WellFormed := by
  cases h with
  | file bytes => cases hentry
  | dir hnodup hnames hinner => exact hinner _ (mem_of_lookup_eq_some hentry)

theorem descend? {tree inner : Tree} {names : List String} (h : tree.WellFormed)
    (hnames : tree.descend? names = some inner) : inner.WellFormed := by
  induction names generalizing tree with
  | nil => rwa [← Option.some.inj hnames]
  | cons name names ih =>
    rw [Tree.descend?, Option.bind_eq_some_iff] at hnames
    obtain ⟨next, hentry, hrest⟩ := hnames
    exact ih (h.entry? hentry) hrest

theorem isEntryName {tree inner : Tree} {names : List String} (h : tree.WellFormed)
    (hnames : tree.descend? names = some inner) : ∀ name ∈ names, IsEntryName name := by
  induction names generalizing tree with
  | nil => simp
  | cons name names ih =>
    rw [Tree.descend?, Option.bind_eq_some_iff] at hnames
    obtain ⟨next, hentry, hrest⟩ := hnames
    refine List.forall_mem_cons.2 ⟨?_, ih (h.entry? hentry) hrest⟩
    cases h with
    | file bytes => cases hentry
    | dir hnodup hnames hinner => exact hnames _ (mem_of_lookup_eq_some hentry)

end WellFormed

namespace Rearranged

theorem wellFormed {tree other : Tree} (h : tree.Rearranged other) (htree : tree.WellFormed) :
    other.WellFormed := by
  induction h with
  | file bytes => exact .file bytes
  | @dir entries others hnames hinner ih =>
    cases htree with
    | dir hnodup hentry hwf =>
      have hback : ∀ entry ∈ others, ∃ tree, (entry.1, tree) ∈ entries := fun entry hother =>
        exists_mem_of_mem_keys (hnames.mem_iff.2 (List.mem_map_of_mem hother))
      refine .dir (hnames.nodup_iff.1 hnodup) (fun entry hother => ?_) (fun entry hother => ?_)
      · obtain ⟨tree, htree⟩ := hback entry hother
        exact hentry (entry.1, tree) htree
      · obtain ⟨tree, htree⟩ := hback entry hother
        exact ih _ tree entry.2 htree hother (hwf _ htree)

/-- The order of a listing cannot be seen. -/
theorem agrees {tree other : Tree} (h : tree.Rearranged other) (htree : tree.WellFormed) :
    tree.Agrees other := by
  have hother := h.wellFormed htree
  induction h with
  | file bytes => exact fun _ => rfl
  | @dir entries others hnames hinner ih =>
    intro names
    cases names with
    | nil => rfl
    | cons name names =>
      rw [look_cons, look_cons, entry?, entry?]
      cases htree with
      | dir hnodup hentry hwf =>
        cases hother with
        | dir hnodup' hentry' hwf' =>
          by_cases hname : name ∈ entries.map Prod.fst
          · obtain ⟨tree, htree⟩ := exists_mem_of_mem_keys hname
            obtain ⟨other, hother⟩ := exists_mem_of_mem_keys (hnames.mem_iff.1 hname)
            rw [lookup_eq_some_of_mem hnodup htree, lookup_eq_some_of_mem hnodup' hother]
            exact ih name tree other htree hother (hwf _ htree) (hwf' _ hother) names
          · rw [lookup_eq_none_of_not_mem hname,
              lookup_eq_none_of_not_mem fun h => hname (hnames.mem_iff.2 h)]

end Rearranged

end RegistryBlock.Tree
