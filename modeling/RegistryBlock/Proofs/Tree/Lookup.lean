import RegistryBlock.Tree.Basic

/-!
# What stands where

All that a program learns from a file tree it learns by looking at names: there is nothing, a
directory, or a file with some bytes. Trees that look the same at all names give the same answer to
every question.
-/

namespace RegistryBlock.Tree

variable {tree other : Tree}

theorem descend?_append (tree : Tree) (front rest : List String) :
    tree.descend? (front ++ rest) = (tree.descend? front).bind (·.descend? rest) := by
  induction front generalizing tree with
  | nil => rfl
  | cons name front ih =>
    rw [List.cons_append, descend?, descend?]
    cases tree.entry? name with
    | none => rfl
    | some inner => exact ih inner

def bytes? : Tree → Option ByteArray
  | file bytes => some bytes
  | dir _ => none

/-- What is seen at some names: nothing, a directory, or a file with its bytes. -/
def look (tree : Tree) (names : List String) : Option (Option ByteArray) :=
  (tree.descend? names).map bytes?

theorem look_append (tree : Tree) (front rest : List String) :
    tree.look (front ++ rest) = (tree.descend? front).bind (·.look rest) := by
  rw [look, descend?_append]
  cases tree.descend? front <;> rfl

theorem look_cons (tree : Tree) (name : String) (names : List String) :
    tree.look (name :: names) = (tree.entry? name).bind (·.look names) := by
  rw [look, descend?]
  cases tree.entry? name <;> rfl

theorem look_eq_some_some_iff {names : List String} {bytes : ByteArray} :
    tree.look names = some (some bytes) ↔ tree.descend? names = some (file bytes) := by
  rw [look]
  rcases tree.descend? names with - | (content | entries) <;> simp [bytes?]

theorem look_eq_some_none_iff {names : List String} :
    tree.look names = some none ↔ ∃ entries, tree.descend? names = some (dir entries) := by
  rw [look]
  rcases tree.descend? names with - | (content | entries) <;> simp [bytes?]

theorem holds_eq_look (tree : Tree) (loc : Location) :
    tree.holds loc = (tree.look loc.names).isSome := by
  rw [holds, look, get?]
  cases tree.descend? loc.names <;> rfl

theorem isFileAt_eq_look (tree : Tree) (loc : Location) :
    tree.isFileAt loc = ((tree.look loc.names).map Option.isSome).getD false := by
  rw [isFileAt, look, get?]
  rcases tree.descend? loc.names with - | (content | entries) <;> rfl

theorem holds_of_isFileAt {loc : Location} (h : tree.isFileAt loc = true) :
    tree.holds loc = true := by
  rw [isFileAt] at h
  rw [holds]
  cases hget : tree.get? loc with
  | none =>
    rw [hget] at h
    cases h
  | some inner => rfl

theorem isDirAt_iff_look {loc : Location} :
    tree.isDirAt loc = true ↔ tree.look loc.names = some none := by
  rw [isDirAt, look, get?]
  rcases tree.descend? loc.names with - | (content | entries) <;> simp [isDir, bytes?]

theorem isDirAt_eq_false_of_holds {loc : Location} (h : tree.holds loc = false) :
    tree.isDirAt loc = false := by
  rw [holds, Option.isSome_eq_false_iff, Option.isNone_iff_eq_none] at h
  rw [isDirAt, h]
  rfl

/-- Below what is no directory there is nothing. -/
theorem look_append_cons_eq_none {loc : Location} (h : tree.isDirAt loc = false) (name : String)
    (rest : List String) : tree.look (loc.names ++ name :: rest) = none := by
  rw [isDirAt, get?] at h
  rw [look_append]
  rcases hdescend : tree.descend? loc.names with - | (bytes | entries)
  · rfl
  · exact look_cons _ _ _
  · rw [hdescend] at h
    cases h

theorem look_eq_none_of_prefix {loc : Location} {names : List String} (h : tree.holds loc = false)
    (hfront : loc.names <+: names) : tree.look names = none := by
  obtain ⟨rest, rfl⟩ := hfront
  rw [holds, Option.isSome_eq_false_iff, Option.isNone_iff_eq_none, get?] at h
  rw [look_append, h]
  rfl

theorem exists_readText_eq_error {loc : Location} (h : tree.holds loc = false) :
    ∃ fault, tree.readText loc = .error fault := by
  rw [holds, Option.isSome_eq_false_iff, Option.isNone_iff_eq_none] at h
  rw [readText, h]
  cases tree.follow .root loc.names with
  | error fault => exact ⟨fault, rfl⟩
  | ok _ => exact ⟨.isDirectory, rfl⟩

/-- The trees look the same at all names. -/
def Agrees (tree other : Tree) : Prop := ∀ names, tree.look names = other.look names

namespace Agrees

theorem holds_eq (h : tree.Agrees other) (loc : Location) : tree.holds loc = other.holds loc := by
  rw [holds_eq_look, holds_eq_look, h]

theorem isDirAt_eq (h : tree.Agrees other) (loc : Location) :
    tree.isDirAt loc = other.isDirAt loc := by
  rw [Bool.eq_iff_iff, isDirAt_iff_look, isDirAt_iff_look, h]

theorem get?_cases (h : tree.Agrees other) (loc : Location) :
    (tree.get? loc = none ∧ other.get? loc = none) ∨
      (∃ bytes, tree.get? loc = some (file bytes) ∧ other.get? loc = some (file bytes)) ∨
      ∃ entries others,
        tree.get? loc = some (dir entries) ∧ other.get? loc = some (dir others) := by
  have hlook : (tree.get? loc).map bytes? = (other.get? loc).map bytes? := h loc.names
  rcases htree : tree.get? loc with - | (content | entries) <;>
    rcases hother : other.get? loc with - | (content' | others) <;>
      rw [htree, hother] at hlook <;> simp_all [bytes?]

theorem follow_eq (h : tree.Agrees other) (loc : Location) (names : List String) :
    tree.follow loc names = other.follow loc names := by
  induction names generalizing loc with
  | nil => rw [follow, follow, h.holds_eq]
  | cons name names ih =>
    rw [follow, follow]
    rcases h.get?_cases loc with ⟨h₁, h₂⟩ | ⟨bytes, h₁, h₂⟩ | ⟨entries, others, h₁, h₂⟩
    · rw [h₁, h₂]
    · rw [h₁, h₂]
    · rw [h₁, h₂]
      dsimp only
      rw [ih, ih]

theorem leadsToDir_eq (h : tree.Agrees other) (path : WrittenPath) :
    tree.leadsToDir path = other.leadsToDir path := by
  rw [leadsToDir, leadsToDir, locate, locate, h.follow_eq]
  cases other.follow .root path.names with
  | error fault => rfl
  | ok loc => exact h.isDirAt_eq loc

theorem readText_eq (h : tree.Agrees other) (loc : Location) :
    tree.readText loc = other.readText loc := by
  rw [readText, readText, h.follow_eq]
  rcases h.get?_cases loc with ⟨h₁, h₂⟩ | ⟨bytes, h₁, h₂⟩ | ⟨entries, others, h₁, h₂⟩ <;>
    rw [h₁, h₂]

end Agrees

end RegistryBlock.Tree
