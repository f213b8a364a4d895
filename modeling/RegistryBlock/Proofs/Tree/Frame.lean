import RegistryBlock.Proofs.Basic
import RegistryBlock.Proofs.Tree.Lookup

/-!
# What a change leaves alone

A change of one place is seen at that place and below it. Everywhere else the tree looks as before.
-/

namespace RegistryBlock.Tree

variable {entries : List (String × Tree)}

/-- Entries of a directory are set as members of an object are. -/
theorem setEntry_eq_put (entries : List (String × Tree)) (name : String) (tree : Tree) :
    setEntry entries name tree = Json.put entries name tree := by
  induction entries with
  | nil => rfl
  | cons entry entries ih => rw [setEntry, Json.put, ih]

theorem lookup_setEntry (entries : List (String × Tree)) (name other : String) (tree : Tree) :
    (setEntry entries name tree).lookup other =
      if other = name then some tree else entries.lookup other := by
  rw [setEntry_eq_put, Json.lookup_put]

theorem lookup_filter_ne (entries : List (String × Tree)) (name other : String) :
    (entries.filter (·.1 ≠ name)).lookup other =
      if other = name then none else entries.lookup other := by
  induction entries with
  | nil => simp
  | cons entry entries ih =>
    obtain ⟨first, old⟩ := entry
    rw [List.filter_cons, lookup_cons_eq_ite]
    by_cases hfirst : first = name
    · rw [if_neg (by simpa using hfirst), ih, hfirst]
      split <;> rfl
    · rw [if_pos (by simpa using hfirst), lookup_cons_eq_ite, ih]
      by_cases h : other = first
      · rw [if_pos h, if_neg (by rwa [h]), if_pos h]
      · rw [if_neg h, if_neg h]

theorem look_dir_cons (entries : List (String × Tree)) (name : String) (names : List String) :
    (dir entries).look (name :: names) = (entries.lookup name).bind (·.look names) :=
  look_cons _ _ _

theorem look_file_cons (bytes : ByteArray) (name : String) (names : List String) :
    (file bytes).look (name :: names) = none :=
  look_cons _ _ _

theorem look_setEntry_cons (entries : List (String × Tree)) (name first : String) (inner : Tree)
    (rest : List String) :
    (dir (setEntry entries name inner)).look (first :: rest) =
      if first = name then inner.look rest else (dir entries).look (first :: rest) := by
  rw [look_dir_cons, look_dir_cons, lookup_setEntry]
  split <;> rfl

/-! ### Cutting -/

theorem cut_file_cons (bytes : ByteArray) (name : String) (names : List String) :
    (file bytes).cut (name :: names) = file bytes := by
  cases names <;> rfl

theorem cut_dir_cons {names : List String} (h : names ≠ []) (entries : List (String × Tree))
    (name : String) :
    (dir entries).cut (name :: names) =
      match entries.lookup name with
      | some inner => dir (setEntry entries name (inner.cut names))
      | none => dir entries := by
  cases names with
  | nil => exact absurd rfl h
  | cons next names => rfl

theorem look_cut_file {target : List String} (h : target ≠ []) (bytes : ByteArray)
    (names : List String) :
    ((file bytes).cut target).look names =
      if target <+: names then none else (file bytes).look names := by
  obtain ⟨name, rest, rfl⟩ := List.exists_cons_of_ne_nil h
  rw [cut_file_cons]
  cases names with
  | nil => rfl
  | cons first names =>
    rw [look_file_cons]
    split <;> rfl

/-- Nothing is left of what is cut away, and the rest stays. -/
theorem look_cut (tree : Tree) (front : List String) (name : String) (names : List String) :
    (tree.cut (front ++ [name])).look names =
      if front ++ [name] <+: names then none else tree.look names := by
  induction front generalizing tree names with
  | nil =>
    cases tree with
    | file bytes => exact look_cut_file (by simp) bytes names
    | dir entries =>
      cases names with
      | nil => rfl
      | cons first names =>
        rw [List.nil_append, cut, look_dir_cons, look_dir_cons, lookup_filter_ne]
        by_cases h : first = name
        · rw [if_pos h, if_pos (by simp [h])]
          rfl
        · rw [if_neg h, if_neg (by simpa [eq_comm] using h)]
  | cons next front ih =>
    cases tree with
    | file bytes => exact look_cut_file (by simp) bytes names
    | dir entries =>
      rw [List.cons_append, cut_dir_cons (by simp)]
      cases names with
      | nil => cases entries.lookup next <;> rfl
      | cons first names =>
        by_cases h : first = next
        · subst h
          rw [look_dir_cons]
          cases hlookup : entries.lookup first with
          | none =>
            rw [look_dir_cons, hlookup]
            split <;> rfl
          | some inner =>
            dsimp only
            rw [look_setEntry_cons, if_pos rfl, Option.bind_some, ih]
            simp only [List.cons_prefix_cons, true_and]
        · rw [if_neg fun hfront => h (List.cons_prefix_cons.1 hfront).1.symm]
          cases entries.lookup next with
          | none => rfl
          | some inner =>
            dsimp only
            rw [look_setEntry_cons, if_neg h]

theorem look_erase (tree : Tree) (loc : Location) (name : String) (names : List String) :
    (tree.erase (loc.child name)).look names =
      if (loc.child name).names <+: names then none else tree.look names :=
  look_cut tree loc.names name names

/-! ### Putting -/

theorem look_put_cons (tree new : Tree) (name first : String) (names rest : List String)
    (h : tree.isDir = true) :
    (tree.put new (name :: names)).look (first :: rest) =
      if first = name then (((tree.entry? name).getD empty).put new names).look rest
      else tree.look (first :: rest) := by
  cases tree with
  | file bytes => cases h
  | dir entries => exact look_setEntry_cons _ _ _ _ _

/-- What is put into a directory stands there, and the rest stays. -/
theorem look_put {tree inner : Tree} {front : List String} (h : tree.descend? front = some inner)
    (hinner : inner.isDir = true) (new : Tree) (name : String) (names : List String) :
    (tree.put new (front ++ [name])).look names =
      if front ++ [name] <+: names then new.look (names.drop (front.length + 1))
      else tree.look names := by
  induction front generalizing tree names with
  | nil =>
    cases h
    cases names with
    | nil =>
      cases inner with
      | file bytes => cases hinner
      | dir entries => rfl
    | cons first names =>
      rw [List.nil_append, look_put_cons _ _ _ _ _ _ hinner]
      by_cases hfirst : first = name
      · rw [if_pos hfirst, if_pos (by simp [hfirst])]
        rfl
      · rw [if_neg hfirst, if_neg (by simpa [eq_comm] using hfirst)]
  | cons next front ih =>
    rw [descend?, Option.bind_eq_some_iff] at h
    obtain ⟨child, hchild, hrest⟩ := h
    cases tree with
    | file bytes => cases hchild
    | dir entries =>
      cases names with
      | nil => rfl
      | cons first names =>
        rw [List.cons_append, look_put_cons _ _ _ _ _ _ rfl]
        by_cases hfirst : first = next
        · rw [if_pos hfirst, hfirst, look_cons, hchild, Option.getD_some, Option.bind_some,
            ih hrest]
          simp only [List.cons_prefix_cons, true_and, List.length_cons, List.drop_succ_cons]
        · rw [if_neg hfirst,
            if_neg fun hfront => hfirst (List.cons_prefix_cons.1 hfront).1.symm]

theorem look_set {tree : Tree} {loc : Location} (h : tree.isDirAt loc = true) (new : Tree)
    (name : String) (names : List String) :
    (tree.set (loc.child name) new).look names =
      if (loc.child name).names <+: names then new.look (names.drop (loc.names.length + 1))
      else tree.look names := by
  rw [isDirAt_iff_look, look_eq_some_none_iff] at h
  obtain ⟨entries, hentries⟩ := h
  exact look_put hentries rfl new name names

/-- A file in a directory is all that is seen of its writing. -/
theorem look_set_file {tree : Tree} {loc : Location} {name : String}
    (hdir : tree.isDirAt loc = true) (hfile : tree.isDirAt (loc.child name) = false)
    (bytes : ByteArray) (names : List String) :
    (tree.set (loc.child name) (.file bytes)).look names =
      if names = (loc.child name).names then some (some bytes) else tree.look names := by
  rw [look_set hdir]
  by_cases hfront : (loc.child name).names <+: names
  · rw [if_pos hfront]
    obtain ⟨rest, rfl⟩ := hfront
    have hlength : (loc.child name).names.length = loc.names.length + 1 := by simp [Location.child]
    rw [← hlength, List.drop_left]
    cases rest with
    | nil =>
      rw [if_pos (List.append_nil _)]
      rfl
    | cons next rest =>
      rw [if_neg (by simp), look_file_cons, look_append_cons_eq_none hfile]
  · rw [if_neg hfront, if_neg]
    rintro rfl
    exact hfront (List.prefix_refl _)

end RegistryBlock.Tree
