import RegistryBlock.Proofs.Tree.Rewrite

/-!
# What cannot be read as text

Whatever stands at a place can be read, unless it is a directory or its bytes are no text.
-/

namespace RegistryBlock.Tree

variable {tree : Tree} {loc : Location} {fault : Fault}

/-- Whether something stands at a location that cannot be read as text: a directory, or a file with
other bytes than those of a text. -/
inductive IsUnreadable (tree : Tree) (loc : Location) : Fault → Prop
  | directory (h : tree.isDirAt loc = true) : IsUnreadable tree loc .isDirectory
  | bytes {bytes : ByteArray} (h : tree.get? loc = some (.file bytes))
      (htext : String.fromUTF8? bytes = none) : IsUnreadable tree loc .undecodable

theorem IsUnreadable.holds (h : tree.IsUnreadable loc fault) : tree.holds loc = true := by
  cases h with
  | directory h => exact holds_of_isDirAt h
  | bytes h =>
    rw [Tree.holds, h]
    rfl

theorem isFileAt_iff : tree.isFileAt loc = true ↔ ∃ bytes, tree.get? loc = some (.file bytes) := by
  rw [isFileAt]
  rcases tree.get? loc with - | (bytes | entries) <;> simp [isDir]

theorem isUnreadable_of_isDirAt (h : tree.isDirAt loc = true) :
    tree.IsUnreadable loc fault ↔ fault = .isDirectory := by
  constructor
  · rintro (- | hget)
    · rfl
    · rw [isDirAt, hget] at h
      cases h
  · rintro rfl
    exact .directory h

theorem isUnreadable_of_get? {bytes : ByteArray} (h : tree.get? loc = some (.file bytes)) :
    tree.IsUnreadable loc fault ↔ fault = .undecodable ∧ String.fromUTF8? bytes = none := by
  constructor
  · rintro (hdir | ⟨hget, htext⟩)
    · rw [isDirAt, h] at hdir
      cases hdir
    · obtain rfl := Tree.file.inj (Option.some.inj (h.symm.trans hget))
      exact ⟨rfl, htext⟩
  · rintro ⟨rfl, htext⟩
    exact .bytes h htext

/-- What is there can be read, or else it is unreadable in itself. -/
theorem readText_eq_error_iff (hup : ".." ∉ loc.names) (hholds : tree.holds loc = true) :
    tree.readText loc = .error fault ↔ tree.IsUnreadable loc fault := by
  have hfollow : tree.follow .root loc.names = .ok loc := follow_root_of_holds hup hholds
  rw [readText, hfollow]
  rcases hget : tree.get? loc with - | (bytes | entries)
  · rw [holds, hget] at hholds
    cases hholds
  · have hnone : decode? bytes = none ↔ String.fromUTF8? bytes = none := Option.map_eq_none_iff
    rw [isUnreadable_of_get? hget, ← hnone]
    cases hdecode : decode? bytes <;> simp only [hdecode] <;> simp [eq_comm]
  · have hdir : tree.isDirAt loc = true := by
      rw [isDirAt, hget]
      rfl
    rw [isUnreadable_of_isDirAt hdir]
    simp [eq_comm]

theorem readText_eq_error_iff_of_isFileAt (hup : ".." ∉ loc.names)
    (hfile : tree.isFileAt loc = true) :
    tree.readText loc = .error fault ↔
      tree.IsUnreadable loc .undecodable ∧ fault = .undecodable := by
  obtain ⟨bytes, hget⟩ := isFileAt_iff.1 hfile
  rw [readText_eq_error_iff hup (holds_of_isFileAt hfile), isUnreadable_of_get? hget,
    isUnreadable_of_get? hget]
  simp [and_comm]

theorem IsUnreadable.isFileAt (h : tree.IsUnreadable loc .undecodable) :
    tree.isFileAt loc = true := by
  cases h with
  | bytes hget => exact isFileAt_iff.2 ⟨_, hget⟩

end RegistryBlock.Tree
