import Mathlib.Data.List.TakeWhile
import RegistryBlock.Proofs.Path.Join

/-!
# Normal paths

A normal path is a row of names with single slashes between them. It is its own key, and its
directory is the row without the last name.
-/

namespace RegistryBlock.Path

/-- Whether a path is a row of names with single slashes between them. -/
def IsNormal (path : String) : Prop :=
  '\\' ∉ path.toList ∧ ∀ seg ∈ segments path.toList, IsName seg

instance (path : String) : Decidable (IsNormal path) :=
  inferInstanceAs (Decidable ('\\' ∉ path.toList ∧ ∀ seg ∈ segments path.toList, IsName seg))

theorem IsNormal.ne_empty {path : String} (h : IsNormal path) : path ≠ "" := by
  rintro rfl
  exact (h.2 [] (List.mem_singleton_self [])).1 rfl

theorem isRelative_of_segments {cs : List Char} (h : ∀ seg ∈ segments cs, seg ≠ []) :
    IsRelative cs := by
  intro hhead
  obtain ⟨rest, rfl⟩ := List.head?_eq_some_iff.1 hhead
  exact h [] (by simp [segments, Text.split]) rfl

theorem IsNormal.isRelative {path : String} (h : IsNormal path) : IsRelative path.toList :=
  isRelative_of_segments fun seg hseg => (h.2 seg hseg).1

theorem isRelative_join {base tail : List Char} (hbase : IsRelative base)
    (htail : IsRelative tail) : IsRelative (join base tail) := by
  by_cases hnil : join base tail = []
  · simp [hnil, IsRelative]
  · refine isRelative_of_segments fun seg hseg => ?_
    rw [segments_join hbase htail hnil] at hseg
    exact (mem_walk hseg).2.1

/-! ### Keys -/

theorem map_slash_of_not_mem {cs : List Char} (h : '\\' ∉ cs) : cs.map slash = cs := by
  induction cs with
  | nil => rfl
  | cons c cs ih =>
    rw [List.mem_cons, not_or] at h
    rw [List.map_cons, ih h.2, slash, if_neg (Ne.symm h.1)]

theorem dropHere_of_segments {cs : List Char} (h : here ∉ segments cs) : dropHere cs = cs := by
  unfold dropHere
  split
  · next rest => exact absurd (by simp [segments, Text.split, here]) h
  · rfl

theorem key_of_isNormal {path : String} (h : IsNormal path) : key path = path := by
  have hhere : here ∉ segments path.toList := fun hmem => (h.2 _ hmem).2.1 rfl
  rw [key, map_slash_of_not_mem h.1, dropHere_of_segments hhere, String.ofList_toList]

theorem dropHere_isSuffix (cs : List Char) : dropHere cs <:+ cs := by
  fun_induction dropHere cs with
  | case1 cs ih => exact ih.trans ⟨['.', '/'], rfl⟩
  | case2 => exact List.suffix_rfl

theorem mem_key {path : String} {c : Char} (h : c ∈ (key path).toList) :
    c = '/' ∨ c ∈ path.toList := by
  rw [key, String.toList_ofList] at h
  obtain ⟨d, hd, rfl⟩ := List.mem_map.1 ((dropHere_isSuffix _).subset h)
  unfold slash
  split
  · exact .inl rfl
  · exact .inr hd

/-! ### Directories -/

theorem cutAtLast_fst_of_not_mem {cs : List Char} (h : '/' ∉ cs) :
    (Text.cutAtLast '/' cs).1 = [] := by
  simp only [Text.cutAtLast, List.reverse_eq_nil_iff, List.dropWhile_eq_nil_iff]
  intro c hc
  simpa using fun he : c = '/' => h (he ▸ List.mem_reverse.1 hc)

/-- Names leave no slash at the end of their row. -/
theorem getLast?_ofSegments_ne {segs : List Segment} (hne : segs ≠ [])
    (h : ∀ seg ∈ segs, seg ≠ [] ∧ '/' ∉ seg) :
    ∃ front c, ofSegments segs = front ++ [c] ∧ c ≠ '/' := by
  induction segs with
  | nil => exact absurd rfl hne
  | cons seg segs ih =>
    by_cases hsegs : segs = []
    · obtain ⟨hseg, hslash⟩ := h seg List.mem_cons_self
      refine ⟨seg.dropLast, seg.getLast hseg, ?_, fun he => hslash (he ▸ List.getLast_mem hseg)⟩
      rw [hsegs, List.dropLast_concat_getLast hseg]
      rfl
    · obtain ⟨front, c, hrest, hc⟩ := ih hsegs fun other hother =>
        h other (List.mem_cons_of_mem _ hother)
      refine ⟨seg ++ '/' :: front, c, ?_, hc⟩
      rw [ofSegments, Text.join_cons seg hsegs, ← ofSegments, hrest]
      simp

theorem ofSegments_concat {segs : List Segment} (hne : segs ≠ []) (last : Segment) :
    ofSegments (segs ++ [last]) = ofSegments segs ++ '/' :: last :=
  Text.join_append hne (List.cons_ne_nil last [])

/-- The directory of a row of names is the row without the last one. -/
theorem directory_ofSegments_concat {segs : List Segment} {last : Segment}
    (h : ∀ seg ∈ segs, seg ≠ [] ∧ '/' ∉ seg) (hlast : '/' ∉ last) :
    directory (ofSegments (segs ++ [last])) = ofSegments segs := by
  by_cases hne : segs = []
  · rw [hne]
    simp [directory, ofSegments, Text.join, cutAtLast_fst_of_not_mem hlast]
  · obtain ⟨front, c, hsegs, hc⟩ := getLast?_ofSegments_ne hne h
    rw [ofSegments_concat hne, directory, Text.cutAtLast_append_cons hlast, hsegs]
    simp [Text.dropEndWhile, hc]

theorem directory_eq {cs : List Char} (h : ∀ seg ∈ segments cs, seg ≠ []) :
    directory cs = ofSegments (segments cs).dropLast := by
  have hne : segments cs ≠ [] := segments_ne_nil cs
  have hsegs := List.dropLast_concat_getLast hne
  have hlast := slash_not_mem_of_mem_segments (List.getLast_mem hne)
  have hcs : ofSegments ((segments cs).dropLast ++ [(segments cs).getLast hne]) = cs := by
    rw [hsegs, ofSegments_segments]
  rw [← directory_ofSegments_concat (fun seg hseg => ?_) hlast, hcs]
  have hmem := List.dropLast_subset _ hseg
  exact ⟨h seg hmem, slash_not_mem_of_mem_segments hmem⟩

theorem isRelative_directory {cs : List Char} (h : ∀ seg ∈ segments cs, seg ≠ []) :
    IsRelative (directory cs) := by
  rw [directory_eq h]
  by_cases hne : (segments cs).dropLast = []
  · rw [hne]
    simp [IsRelative, ofSegments, Text.join]
  · apply isRelative_of_segments
    intro seg hseg
    rw [segments_ofSegments hne fun other hother =>
      slash_not_mem_of_mem_segments (List.dropLast_subset _ hother)] at hseg
    exact h seg (List.dropLast_subset _ hseg)

/-- The directory of a path below another directory. -/
theorem directory_inside {dir : Segment} (hdir : dir ≠ []) (hslash : '/' ∉ dir) {cs : List Char}
    (h : ∀ seg ∈ segments cs, seg ≠ []) :
    directory (dir ++ '/' :: cs) = inside dir (directory cs) := by
  have hsegs : segments (dir ++ '/' :: cs) = dir :: segments cs := by
    rw [segments_append_cons, segments, Text.split_of_not_mem hslash]
    rfl
  have hnames : ∀ seg ∈ segments (dir ++ '/' :: cs), seg ≠ [] := by
    rw [hsegs]
    intro seg hseg
    rcases List.mem_cons.1 hseg with rfl | hseg
    · exact hdir
    · exact h seg hseg
  have hne : segments cs ≠ [] := segments_ne_nil cs
  rw [directory_eq hnames, directory_eq h, hsegs, List.dropLast_cons_of_ne_nil hne]
  by_cases hinit : (segments cs).dropLast = []
  · rw [hinit]
    rfl
  · apply ofSegments_cons dir
    intro hnil
    obtain ⟨front, c, hfront, -⟩ := getLast?_ofSegments_ne hinit fun seg hseg =>
      ⟨h seg (List.dropLast_subset _ hseg),
        slash_not_mem_of_mem_segments (List.dropLast_subset _ hseg)⟩
    simp [hnil] at hfront

end RegistryBlock.Path
