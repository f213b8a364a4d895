import RegistryBlock.Tree.Basic

/-!
# Following names

A resolved path has no `..` left in it. Following names without `..` leads to just these names.
-/

namespace RegistryBlock

namespace Location

theorem up_not_mem_follow {loc : Location} (h : ".." ∉ loc.names) (names : List String) :
    ".." ∉ (loc.follow names).names := by
  induction names generalizing loc with
  | nil => exact h
  | cons name names ih =>
    rw [follow]
    split
    · exact ih fun hmem => h ((List.dropLast_sublist _).mem hmem)
    · next hname =>
      apply ih
      intro hmem
      rcases List.mem_append.1 hmem with hmem | hmem
      · exact h hmem
      · exact hname (List.mem_singleton.1 hmem).symm

theorem follow_of_up_not_mem {names : List String} (h : ".." ∉ names) (loc : Location) :
    loc.follow names = ⟨loc.names ++ names⟩ := by
  induction names generalizing loc with
  | nil => rw [follow, List.append_nil]
  | cons name names ih =>
    rw [List.mem_cons, not_or] at h
    rw [follow, if_neg (Ne.symm h.1), ih h.2, child, List.append_assoc, List.singleton_append]

end Location

theorem WrittenPath.up_not_mem_resolve {cwd : Location} (h : ".." ∉ cwd.names)
    (path : WrittenPath) : ".." ∉ (path.resolve cwd).names := by
  rw [resolve]
  refine Location.up_not_mem_follow ?_ path.names
  split
  · exact List.not_mem_nil
  · exact h

/-- The path of the location that a path denotes denotes this location again. -/
theorem WrittenPath.resolve_ofLocation_resolve (path : WrittenPath) :
    (ofLocation (path.resolve .root)).resolve .root = path.resolve .root := by
  have hup : ".." ∉ Location.root.names := List.not_mem_nil
  exact Location.follow_of_up_not_mem (up_not_mem_resolve hup path) .root

theorem WrittenPath.resolve_ofLocation {loc : Location} (hup : ".." ∉ loc.names) :
    (ofLocation loc).resolve .root = loc :=
  Location.follow_of_up_not_mem hup .root

theorem up_not_mem_child {loc : Location} (hup : ".." ∉ loc.names) {name : String}
    (hname : name ≠ "..") : ".." ∉ (loc.child name).names := by
  simp [Location.child, hup, Ne.symm hname]

namespace Tree

theorem follow_eq_ok {tree : Tree} {loc found : Location} {names : List String}
    (hup : ".." ∉ names) (h : tree.follow loc names = .ok found) :
    found.names = loc.names ++ names := by
  induction names generalizing loc with
  | nil =>
    rw [follow] at h
    split at h
    · rw [← Except.ok.inj h, List.append_nil]
    · cases h
  | cons name names ih =>
    rw [List.mem_cons, not_or] at hup
    rw [follow] at h
    split at h
    · cases h
    · cases h
    · rw [if_neg (Ne.symm hup.1)] at h
      rw [ih hup.2 h, Location.child, List.append_assoc, List.singleton_append]

/-- A file is written at the very place that its location names, in a directory that is there. -/
theorem writable_child_eq_ok {tree : Tree} {directory loc : Location} {name : String}
    (hup : ".." ∉ directory.names) (hname : name ≠ "..")
    (h : tree.writable (.ofLocation (directory.child name)) = .ok loc) :
    loc = directory.child name ∧ tree.isDirAt directory = true := by
  have hlast : (directory.names ++ [name]).getLast? = some name := List.getLast?_concat
  have hfront : (directory.names ++ [name]).dropLast = directory.names := List.dropLast_concat
  simp only [writable, WrittenPath.ofLocation, Location.child, hlast, hfront, if_neg hname] at h
  split at h
  · cases h
  · next parent hparent =>
    have hdirectory : parent = directory :=
      congrArg Location.mk (follow_eq_ok hup hparent)
    subst hdirectory
    split at h
    · next hdir =>
      split at h
      · cases h
      · exact ⟨(Except.ok.inj h).symm, hdir⟩
    · cases h

end Tree

end RegistryBlock
