import Mathlib.Data.List.Infix
import RegistryBlock.Proofs.Path.Normal
import RegistryBlock.Proofs.Text.Ends

/-!
# Paths by their segments

What is read off the text of a path at its front or its end can be read off its row of segments. A
directory holds a path if its segments come first, the base name is the last segment, and an
extension begins at the last dot if not only dots stand before it.
-/

namespace RegistryBlock.Path

variable {cs : List Char} {segs : List Segment}

theorem segments_injective : Function.Injective segments :=
  Function.LeftInverse.injective ofSegments_segments

theorem segments_of_not_mem (h : '/' ∉ cs) : segments cs = [cs] := Text.split_of_not_mem h

/-! ### The front -/

/-- A path is a directory or lies in it if and only if it begins with the segments of the
directory. -/
theorem segments_isPrefix_iff {dir path : List Char} :
    segments dir <+: segments path ↔ path = dir ∨ ∃ rest, path = dir ++ '/' :: rest := by
  constructor
  · rintro ⟨tail, htail⟩
    by_cases hnil : tail = []
    · rw [hnil, List.append_nil] at htail
      exact .inl (segments_injective htail.symm)
    · obtain ⟨before, after, hpath, hbefore, -⟩ :=
        (segments_eq_append_iff (segments_ne_nil dir) hnil).1 htail.symm
      exact .inr ⟨after, by rw [hpath, segments_injective hbefore]⟩
  · rintro (rfl | ⟨rest, rfl⟩)
    · exact List.prefix_rfl
    · rw [segments_append_cons]
      exact List.prefix_append _ _

/-- Whether there are at least two segments, and the first one is the given name. -/
def BeginsIn (segs : List Segment) (name : Segment) : Prop :=
  2 ≤ segs.length ∧ segs.head? = some name

instance (segs : List Segment) (name : Segment) : Decidable (BeginsIn segs name) :=
  inferInstanceAs (Decidable (2 ≤ segs.length ∧ segs.head? = some name))

theorem beginsIn_segments_iff {name : Segment} (h : '/' ∉ name) :
    BeginsIn (segments cs) name ↔ ∃ rest, cs = name ++ '/' :: rest := by
  constructor
  · rintro ⟨hlength, hhead⟩
    obtain ⟨tail, htail⟩ := List.head?_eq_some_iff.1 hhead
    have hne : tail ≠ [] := fun hnil => by simp [htail, hnil] at hlength
    have hsplit : segments cs = segments name ++ tail := by rw [htail, segments_of_not_mem h]; rfl
    obtain ⟨before, after, hcs, hbefore, -⟩ :=
      (segments_eq_append_iff (segments_ne_nil name) hne).1 hsplit
    exact ⟨after, by rw [hcs, segments_injective hbefore]⟩
  · rintro ⟨rest, rfl⟩
    have hlength := List.length_pos_iff.2 (segments_ne_nil rest)
    rw [BeginsIn, segments_append_cons, segments_of_not_mem h, List.singleton_append]
    exact ⟨by rw [List.length_cons]; omega, rfl⟩

/-- The segments without the directory of the sources, if they begin in it. -/
def withoutRoot (segs : List Segment) : List Segment :=
  if BeginsIn segs "src".toList then segs.tail else segs

theorem ofSegments_withoutRoot_segments (cs : List Char) :
    ofSegments (withoutRoot (segments cs)) = (Text.dropFront? "src/".toList cs).getD cs := by
  have hslash : '/' ∉ "src".toList := by decide
  unfold withoutRoot
  split
  · next hroot =>
    obtain ⟨rest, rfl⟩ := (beginsIn_segments_iff hslash).1 hroot
    have hdrop : Text.dropFront? "src/".toList ("src".toList ++ '/' :: rest) = some rest :=
      Text.dropFront?_eq_some_iff.2 rfl
    rw [hdrop, segments_append_cons, segments_of_not_mem hslash, List.singleton_append,
      List.tail_cons, ofSegments_segments, Option.getD_some]
  · next hroot =>
    have hdrop : Text.dropFront? "src/".toList cs = none := by
      rw [Option.eq_none_iff_forall_ne_some]
      intro rest hrest
      have hcs := Text.dropFront?_eq_some_iff.1 hrest
      exact hroot ((beginsIn_segments_iff hslash).2 ⟨rest, hcs⟩)
    rw [hdrop, Option.getD_none, ofSegments_segments]

/-! ### The last name -/

/-- Whether a text may stand before the base name of a path: it is empty or ends in a slash. -/
def IsFront (front : List Char) : Prop := front = [] ∨ ∃ dir, front = dir ++ ['/']

theorem baseName_append {front name : List Char} (hfront : IsFront front) (hname : '/' ∉ name) :
    baseName (front ++ name) = name := by
  rcases hfront with rfl | ⟨dir, rfl⟩
  · have hcut := Text.cutAtLast_append '/' name
    rwa [cutAtLast_fst_of_not_mem hname] at hcut
  · rw [List.append_assoc, List.singleton_append, baseName, Text.cutAtLast_append_cons hname]

def lastName (segs : List Segment) : Segment := segs.getLastD []

/-- A path is its last segment with a front before it. -/
theorem exists_front_lastName (cs : List Char) :
    ∃ front, IsFront front ∧ '/' ∉ lastName (segments cs) ∧
      cs = front ++ lastName (segments cs) := by
  have hne := segments_ne_nil cs
  have hlast : lastName (segments cs) = (segments cs).getLast hne := by
    rw [lastName, List.getLastD_eq_getLast?, List.getLast?_eq_some_getLast hne, Option.getD_some]
  have hslash := slash_not_mem_of_mem_segments (List.getLast_mem hne)
  have hsegs := List.dropLast_concat_getLast hne
  rw [← hlast] at hslash hsegs
  by_cases hnil : (segments cs).dropLast = []
  · rw [hnil] at hsegs
    refine ⟨[], .inl rfl, hslash, segments_injective ?_⟩
    rw [List.nil_append, segments_of_not_mem hslash]
    exact hsegs.symm
  · refine ⟨ofSegments (segments cs).dropLast ++ ['/'], .inr ⟨_, rfl⟩, hslash, ?_⟩
    rw [List.append_assoc, List.singleton_append, ← ofSegments_concat hnil, hsegs,
      ofSegments_segments]

theorem baseName_eq_lastName (cs : List Char) : baseName cs = lastName (segments cs) := by
  obtain ⟨front, hfront, hslash, hcs⟩ := exists_front_lastName cs
  rw [← baseName_append hfront hslash, ← hcs]

theorem exists_front (cs : List Char) :
    ∃ front, IsFront front ∧ '/' ∉ baseName cs ∧ cs = front ++ baseName cs :=
  baseName_eq_lastName cs ▸ exists_front_lastName cs

/-- What is put behind a path goes to its last name, unless it holds a slash. -/
theorem baseName_append_of_not_mem {ext : List Char} (h : '/' ∉ ext) (cs : List Char) :
    baseName (cs ++ ext) = baseName cs ++ ext := by
  obtain ⟨front, hfront, hslash, hcs⟩ := exists_front cs
  have hname : '/' ∉ baseName cs ++ ext := List.not_mem_append hslash h
  rw [← baseName_append hfront hname, ← List.append_assoc, ← hcs]

/-! ### Extensions -/

/-- Whether a text is what a name ends in from its last dot on, with something other than a dot
before it. -/
def IsExtension (name ext : Segment) : Prop :=
  ∃ stem tail, name = stem ++ ext ∧ (∃ c ∈ stem, c ≠ '.') ∧ ext = '.' :: tail ∧ '.' ∉ tail

theorem ne_dot_of_dropWhile_eq {name rest : List Char} {c : Char}
    (h : name.dropWhile (· == '.') = c :: rest) : c ≠ '.' := by
  have hhead : (name.dropWhile (· == '.')).head? = some c := by rw [h, List.head?_cons]
  simpa using Text.head?_dropWhile hhead

theorem splitExtension_append_cons {stem tail : List Char} (hstem : ∃ c ∈ stem, c ≠ '.')
    (htail : '.' ∉ tail) : splitExtension (stem ++ '.' :: tail) = (stem, '.' :: tail) := by
  have hdots : ∀ c ∈ stem.takeWhile (· == '.'), (c == '.') = true :=
    List.all_eq_true.1 List.all_takeWhile
  have hsplit : stem.takeWhile (· == '.') ++ stem.dropWhile (· == '.') = stem :=
    List.takeWhile_append_dropWhile
  obtain ⟨c, body, hbody⟩ : ∃ c body, stem.dropWhile (· == '.') = c :: body := by
    refine List.exists_cons_of_ne_nil fun hnil => ?_
    obtain ⟨c, hc, hdot⟩ := hstem
    exact hdot (by simpa using List.dropWhile_eq_nil_iff.1 hnil c hc)
  have hc := ne_dot_of_dropWhile_eq hbody
  have hcut := Text.cutAtLast_append_cons htail (c :: body)
  have hbehind : ∀ other ∈ (c :: body ++ '.' :: tail).head?, (other == '.') = false := by
    simpa using hc
  rw [hbody] at hsplit
  rw [splitExtension, ← hsplit, List.append_assoc, Text.takeWhile_append_eq_left hdots hbehind,
    Text.dropWhile_append_eq_right hdots hbehind, if_pos (by simp), hcut]
  simp only [List.dropLast_concat]

theorem IsExtension.splitExtension_snd {name ext : List Char} (h : IsExtension name ext) :
    (splitExtension name).2 = ext := by
  obtain ⟨stem, tail, rfl, hstem, rfl, htail⟩ := h
  rw [splitExtension_append_cons hstem htail]

/-- A dot behind the dots at the front of a name begins an extension, unless it is followed by
another one. -/
theorem exists_isExtension {name : List Char} (h : '.' ∈ name.dropWhile (· == '.')) :
    ∃ ext, IsExtension name ext := by
  obtain ⟨tail, front, hbody, htail⟩ := List.eq_append_cons_of_mem (List.mem_reverse.2 h)
  have hname : name = name.takeWhile (· == '.') ++ name.dropWhile (· == '.') :=
    List.takeWhile_append_dropWhile.symm
  have hbody : name.dropWhile (· == '.') = front.reverse ++ '.' :: tail.reverse := by
    simpa using congrArg List.reverse hbody
  obtain ⟨c, rest, hfront⟩ : ∃ c rest, front.reverse = c :: rest := by
    refine List.exists_cons_of_ne_nil fun hnil => ?_
    rw [hnil] at hbody
    exact ne_dot_of_dropWhile_eq hbody rfl
  have hc : c ≠ '.' := by
    rw [hfront] at hbody
    exact ne_dot_of_dropWhile_eq hbody
  refine ⟨'.' :: tail.reverse, name.takeWhile (· == '.') ++ front.reverse, tail.reverse, ?_,
    ⟨c, ?_, hc⟩, rfl, by simpa using htail⟩
  · rw [List.append_assoc, ← hbody, ← hname]
  · rw [hfront]
    exact List.mem_append_right _ List.mem_cons_self

/-- What is cut off a name as its extension is empty, or it is the extension of the name. -/
theorem splitExtension_snd_eq_iff {name ext : List Char} (hne : ext ≠ []) :
    (splitExtension name).2 = ext ↔ IsExtension name ext := by
  refine ⟨fun h => ?_, IsExtension.splitExtension_snd⟩
  have hdot : '.' ∈ name.dropWhile (· == '.') := by
    refine Classical.byContradiction fun hdot => hne ?_
    rw [← h, splitExtension, if_neg (by simpa using hdot)]
  obtain ⟨other, hother⟩ := exists_isExtension hdot
  rwa [← h, hother.splitExtension_snd]

instance (name ext : Segment) : Decidable (IsExtension name ext) :=
  decidable_of_iff (ext ≠ [] ∧ (splitExtension name).2 = ext) <| by
    constructor
    · rintro ⟨hne, h⟩
      exact (splitExtension_snd_eq_iff hne).1 h
    · intro h
      obtain ⟨-, tail, -, -, hext, -⟩ := id h
      have hne : ext ≠ [] := hext ▸ List.cons_ne_nil '.' tail
      exact ⟨hne, h.splitExtension_snd⟩

def HasExtension (extensions : List String) (name : Segment) : Prop :=
  ∃ ext ∈ extensions, IsExtension name ext.toList

instance (extensions : List String) (name : Segment) : Decidable (HasExtension extensions name) :=
  inferInstanceAs (Decidable (∃ ext ∈ extensions, IsExtension name ext.toList))

theorem extension_mem_iff {extensions : List String} (h : "" ∉ extensions) (cs : List Char) :
    String.ofList (extension cs) ∈ extensions ↔
      HasExtension extensions (lastName (segments cs)) := by
  have hne : ∀ ext ∈ extensions, ext.toList ≠ [] := fun ext hext hnil =>
    h (String.toList_eq_nil_iff.1 hnil ▸ hext)
  rw [← baseName_eq_lastName]
  constructor
  · intro hmem
    refine ⟨_, hmem, (splitExtension_snd_eq_iff (hne _ hmem)).1 ?_⟩
    rw [String.toList_ofList, extension]
  · rintro ⟨ext, hmem, hext⟩
    rwa [extension, hext.splitExtension_snd, String.ofList_toList]

end RegistryBlock.Path
