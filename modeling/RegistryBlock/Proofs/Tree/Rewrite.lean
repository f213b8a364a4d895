import Mathlib.Data.List.Basic
import RegistryBlock.Proofs.Tree.Follow
import RegistryBlock.Proofs.Tree.Frame
import RegistryBlock.Proofs.Tree.Listing

/-!
# Writing a file

A file is written to a place in a directory where there is another file or nothing. The tree then
looks as before but for this place, so every path leads to the same directories.
-/

namespace RegistryBlock.Tree

variable {tree other : Tree} {path : WrittenPath} {loc start found : Location} {bytes : ByteArray}

/-! ### Directories on the way -/

theorem isDirAt_parent (h : tree.isDirAt loc = true) : tree.isDirAt loc.parent = true := by
  obtain ⟨names⟩ := loc
  rcases List.eq_nil_or_concat' names with rfl | ⟨front, name, rfl⟩
  · exact h
  · rw [isDirAt_iff_look, look_append] at h
    rw [Location.parent, List.dropLast_concat, isDirAt_iff_look]
    obtain ⟨inner, hinner, hlook⟩ := Option.bind_eq_some_iff.1 h
    cases inner with
    | file content =>
      rw [look_file_cons] at hlook
      cases hlook
    | dir entries =>
      rw [look, hinner]
      rfl

theorem holds_of_isDirAt (h : tree.isDirAt loc = true) : tree.holds loc = true := by
  rw [holds_eq_look, isDirAt_iff_look.1 h]
  rfl

/-- Every name but the last stands in a directory. -/
theorem follow_cons_eq_ok_iff {name : String} {names : List String} :
    tree.follow start (name :: names) = .ok found ↔ tree.isDirAt start = true ∧
      tree.follow (if name = ".." then start.parent else start.child name) names = .ok found := by
  rw [follow, isDirAt]
  rcases tree.get? start with - | (content | entries)
  · simp
  · simp [isDir]
  · simp only [Option.map_some, isDir, Option.getD_some, true_and]
    split <;> rfl

theorem follow_nil_eq_ok_iff : tree.follow start [] = .ok found ↔
    tree.holds start = true ∧ start = found := by
  rw [follow]
  split
  · next h => simp [h]
  · next h => simp [h]

theorem follow_append_eq_ok_iff {front names : List String} {mid : Location}
    (hfront : tree.follow start front = .ok mid) :
    tree.follow start (front ++ names) = .ok found ↔ tree.follow mid names = .ok found := by
  induction front generalizing start with
  | nil =>
    obtain ⟨-, rfl⟩ := follow_nil_eq_ok_iff.1 hfront
    rfl
  | cons name front ih =>
    obtain ⟨hdir, hfront⟩ := follow_cons_eq_ok_iff.1 hfront
    rw [List.cons_append, follow_cons_eq_ok_iff, ih hfront, and_iff_right hdir]

/-- What stands at names without `..` is found there. -/
theorem follow_of_holds {names : List String} (hup : ".." ∉ names)
    (h : tree.holds ⟨start.names ++ names⟩ = true) :
    tree.follow start names = .ok ⟨start.names ++ names⟩ := by
  induction names generalizing start with
  | nil =>
    rw [List.append_nil] at h ⊢
    exact follow_nil_eq_ok_iff.2 ⟨h, rfl⟩
  | cons name names ih =>
    rw [List.mem_cons, not_or] at hup
    have hdir : tree.isDirAt start = true := by
      by_contra hfile
      rw [holds_eq_look, look_append_cons_eq_none (eq_false_of_ne_true hfile)] at h
      cases h
    have hnames : (start.child name).names ++ names = start.names ++ name :: names := by
      rw [Location.child, List.append_assoc, List.singleton_append]
    rw [← hnames] at h ⊢
    rw [follow_cons_eq_ok_iff, if_neg (Ne.symm hup.1)]
    exact ⟨hdir, ih hup.2 h⟩

theorem follow_root_of_holds (hup : ".." ∉ loc.names) (h : tree.holds loc = true) :
    tree.follow .root loc.names = .ok loc := by
  have hstart : tree.follow .root loc.names = .ok ⟨Location.root.names ++ loc.names⟩ :=
    follow_of_holds hup h
  exact hstart

/-- Names lead to the same directories in trees with the same directories. -/
theorem follow_eq_ok_of_isDirAt_eq (h : ∀ place, other.isDirAt place = tree.isDirAt place)
    {names : List String} (hfound : tree.follow start names = .ok found)
    (hdir : tree.isDirAt found = true) : other.follow start names = .ok found := by
  induction names generalizing start with
  | nil =>
    obtain ⟨-, rfl⟩ := follow_nil_eq_ok_iff.1 hfound
    exact follow_nil_eq_ok_iff.2 ⟨holds_of_isDirAt ((h start).trans hdir), rfl⟩
  | cons name names ih =>
    obtain ⟨hstart, hfound⟩ := follow_cons_eq_ok_iff.1 hfound
    exact follow_cons_eq_ok_iff.2 ⟨(h start).trans hstart, ih hfound⟩

theorem leadsToDir_iff : tree.leadsToDir path = true ↔
    ∃ found, tree.locate path = .ok found ∧ tree.isDirAt found = true := by
  rw [leadsToDir]
  cases tree.locate path <;> simp

theorem leadsToDir_ofLocation (hup : ".." ∉ loc.names) (h : tree.isDirAt loc = true) :
    tree.leadsToDir (.ofLocation loc) = true := by
  refine leadsToDir_iff.2 ⟨loc, ?_, h⟩
  exact follow_root_of_holds hup (holds_of_isDirAt h)

theorem readText_eq_look (hup : ".." ∉ loc.names) (h : tree.holds loc = true) :
    tree.readText loc =
      match tree.look loc.names with
      | some (some bytes) =>
        match decode? bytes with
        | some text => .ok text
        | none => .error .undecodable
      | _ => .error .isDirectory := by
  have hfollow : tree.follow .root loc.names = .ok loc := follow_root_of_holds hup h
  rw [readText, hfollow, look, get?]
  rcases tree.descend? loc.names with - | (bytes | entries) <;> rfl

/-! ### Places to write to -/

/-- A file can be written to a path that ends with a name in a directory, if there is no directory
of this name. -/
theorem writable_eq_ok_iff : tree.writable path = .ok loc ↔
    ∃ front name parent, path.names = front ++ [name] ∧ name ≠ ".." ∧
      tree.follow .root front = .ok parent ∧ tree.isDirAt parent = true ∧
      loc = parent.child name ∧ tree.isDirAt loc = false := by
  constructor
  · intro h
    unfold writable at h
    split at h
    · cases h
    · next name hlast =>
      obtain ⟨front, hnames⟩ := List.getLast?_eq_some_iff.1 hlast
      rw [hnames, List.dropLast_concat] at h
      split at h
      · cases h
      · next parent hparent =>
        split at h
        · next hdir =>
          by_cases hname : name = ".."
          · rw [if_pos hname, if_pos (isDirAt_parent hdir)] at h
            cases h
          · rw [if_neg hname] at h
            dsimp only at h
            split at h
            · cases h
            · next hfile =>
              obtain rfl := Except.ok.inj h
              exact ⟨front, name, parent, hnames, hname, hparent, hdir, rfl,
                eq_false_of_ne_true hfile⟩
        · cases h
  · rintro ⟨front, name, parent, hnames, hname, hparent, hdir, rfl, hfile⟩
    have hlast : (front ++ [name]).getLast? = some name := List.getLast?_concat
    have hfront : (front ++ [name]).dropLast = front := List.dropLast_concat
    simp only [writable, hnames, hlast, hfront, hparent, hdir, if_neg hname, hfile, if_true,
      Bool.false_eq_true, if_false]

/-- A file that cannot be written is a directory itself, or the directory that it is to be in is not
there. -/
theorem leadsToDir_parent_of_writable_eq_error {fault : Fault}
    (h : tree.writable path = .error fault) (hfault : fault ≠ .isDirectory) :
    tree.leadsToDir path.parent = false := by
  unfold writable at h
  split at h
  · exact absurd (Except.error.inj h).symm hfault
  · next name _ =>
    rw [leadsToDir, locate, WrittenPath.parent]
    split at h
    · next hparent => rw [hparent]
    · next parent hparent =>
      rw [hparent]
      by_cases hdir : tree.isDirAt parent = true
      · rw [if_pos hdir] at h
        dsimp only at h
        generalize (if name = ".." then parent.parent else parent.child name) = loc at h
        split at h
        · exact absurd (Except.error.inj h).symm hfault
        · cases h
      · exact eq_false_of_ne_true hdir

namespace WellFormed

theorem setEntry {entries : List (String × Tree)} (h : (Tree.dir entries).WellFormed)
    {name : String} (hname : IsEntryName name) {inner : Tree} (hinner : inner.WellFormed) :
    (Tree.dir (Tree.setEntry entries name inner)).WellFormed := by
  cases h with
  | dir hnodup hnames hall =>
    rw [setEntry_eq_put]
    refine .dir ?_ (fun entry hentry => ?_) (fun entry hentry => ?_)
    · rw [Json.map_fst_put]
      split
      · exact hnodup
      · next hnew =>
        refine List.nodup_append.2 ⟨hnodup, by simp, ?_⟩
        rintro other hother _ hlast rfl
        exact hnew (List.mem_singleton.1 hlast ▸ hother)
    · rcases Json.mem_of_mem_put hentry with hentry | rfl
      · exact hnames entry hentry
      · exact hname
    · rcases Json.mem_of_mem_put hentry with hentry | rfl
      · exact hall entry hentry
      · exact hinner

theorem empty : Tree.empty.WellFormed :=
  .dir List.nodup_nil (List.forall_mem_nil _) (List.forall_mem_nil _)

theorem put {new : Tree} (h : tree.WellFormed) (hnew : new.WellFormed) {names : List String}
    (hnames : ∀ name ∈ names, IsEntryName name) : (tree.put new names).WellFormed := by
  induction names generalizing tree with
  | nil => exact hnew
  | cons name names ih =>
    rw [List.forall_mem_cons] at hnames
    cases tree with
    | file bytes => exact empty.setEntry hnames.1 (ih empty hnames.2)
    | dir entries =>
      refine h.setEntry hnames.1 (ih ?_ hnames.2)
      cases hlookup : entries.lookup name with
      | none => exact empty
      | some inner => exact h.entry? hlookup

end WellFormed

/-- The trees look the same but for a file with the given bytes, in the place of which the first one
has another file or nothing. -/
structure Rewritten (tree : Tree) (loc : Location) (bytes : ByteArray) (other : Tree) : Prop where
  isDirAt_eq_false : tree.isDirAt loc = false
  look_eq (names : List String) :
    other.look names = if names = loc.names then some (some bytes) else tree.look names

theorem rewritten_set (h : tree.writable path = .ok loc) (bytes : ByteArray) :
    tree.Rewritten loc bytes (tree.set loc (.file bytes)) := by
  obtain ⟨front, name, parent, -, -, -, hdir, rfl, hfile⟩ := writable_eq_ok_iff.1 h
  exact ⟨hfile, look_set_file hdir hfile bytes⟩

namespace Rewritten

theorem isDirAt_eq (h : tree.Rewritten loc bytes other) (place : Location) :
    other.isDirAt place = tree.isDirAt place := by
  rw [Bool.eq_iff_iff, isDirAt_iff_look, isDirAt_iff_look, h.look_eq]
  split
  · next hplace =>
    have hfile := h.isDirAt_eq_false
    rw [← Bool.not_eq_true, isDirAt_iff_look, ← hplace] at hfile
    simp [hfile]
  · rfl

theorem leadsToDir_eq (h : tree.Rewritten loc bytes other) (path : WrittenPath) :
    other.leadsToDir path = tree.leadsToDir path := by
  rw [Bool.eq_iff_iff, leadsToDir_iff, leadsToDir_iff]
  constructor
  · rintro ⟨found, hfound, hdir⟩
    refine ⟨found, ?_, (h.isDirAt_eq found).symm.trans hdir⟩
    exact follow_eq_ok_of_isDirAt_eq (fun place => (h.isDirAt_eq place).symm) hfound hdir
  · rintro ⟨found, hfound, hdir⟩
    exact ⟨found, follow_eq_ok_of_isDirAt_eq h.isDirAt_eq hfound hdir,
      (h.isDirAt_eq found).trans hdir⟩

theorem holds_self (h : tree.Rewritten loc bytes other) : other.holds loc = true := by
  rw [holds_eq_look, h.look_eq, if_pos rfl]
  rfl

/-- The path that was written to leads to the file. -/
theorem locate_eq_ok (h : tree.Rewritten loc bytes other) (hpath : tree.writable path = .ok loc) :
    other.locate path = .ok loc := by
  obtain ⟨front, name, parent, hnames, hname, hparent, hdir, rfl, -⟩ :=
    writable_eq_ok_iff.1 hpath
  have hfront := follow_eq_ok_of_isDirAt_eq h.isDirAt_eq hparent hdir
  rw [locate, hnames, follow_append_eq_ok_iff hfront, follow_cons_eq_ok_iff, if_neg hname,
    follow_nil_eq_ok_iff]
  exact ⟨(h.isDirAt_eq parent).trans hdir, h.holds_self, rfl⟩

/-- The path can be written to once more. -/
theorem writable_eq_ok (h : tree.Rewritten loc bytes other) (hpath : tree.writable path = .ok loc) :
    other.writable path = .ok loc := by
  obtain ⟨front, name, parent, hnames, hname, hparent, hdir, hloc, hfile⟩ :=
    writable_eq_ok_iff.1 hpath
  exact writable_eq_ok_iff.2 ⟨front, name, parent, hnames, hname,
    follow_eq_ok_of_isDirAt_eq h.isDirAt_eq hparent hdir, (h.isDirAt_eq parent).trans hdir, hloc,
    (h.isDirAt_eq loc).trans hfile⟩

/-! ### Other places -/

variable {place : Location}

theorem look_eq_of_ne (h : tree.Rewritten loc bytes other) (hplace : place ≠ loc) :
    other.look place.names = tree.look place.names := by
  rw [h.look_eq, if_neg fun hnames => hplace (congrArg Location.mk hnames)]

theorem holds_eq (h : tree.Rewritten loc bytes other) (hplace : place ≠ loc) :
    other.holds place = tree.holds place := by
  rw [holds_eq_look, holds_eq_look, h.look_eq_of_ne hplace]

theorem isFileAt_eq (h : tree.Rewritten loc bytes other) (hplace : place ≠ loc) :
    other.isFileAt place = tree.isFileAt place := by
  rw [isFileAt_eq_look, isFileAt_eq_look, h.look_eq_of_ne hplace]

theorem readText_eq (h : tree.Rewritten loc bytes other) (hup : ".." ∉ place.names)
    (hplace : place ≠ loc) (hholds : tree.holds place = true) :
    other.readText place = tree.readText place := by
  have hother : other.holds place = true := (h.holds_eq hplace).trans hholds
  rw [readText_eq_look hup hholds, readText_eq_look hup hother, h.look_eq_of_ne hplace]

end Rewritten

end RegistryBlock.Tree
