import RegistryBlock.Text.Basic

/-!
# Splitting and joining

Splitting at a separator undoes joining with it as long as no piece holds the separator, and a
separator in the middle of a text splits it in two texts. What is cut off at the first separator
does not depend on what follows another one, nor what is cut off at the last one on what precedes.
-/

namespace RegistryBlock.Text

variable {sep : Char}

theorem split_of_not_mem {cs : List Char} (h : sep ∉ cs) : split sep cs = [cs] := by
  induction cs with
  | nil => rfl
  | cons c cs ih =>
    rw [List.mem_cons, not_or] at h
    simp only [split, if_neg (Ne.symm h.1), ih h.2]

theorem split_append_cons (front rest : List Char) :
    split sep (front ++ sep :: rest) = split sep front ++ split sep rest := by
  induction front with
  | nil => simp [split]
  | cons c front ih =>
    simp only [List.cons_append, split, ih]
    by_cases hc : c = sep
    · simp [hc]
    · cases hs : split sep front with
      | nil => exact absurd hs (split_ne_nil sep front)
      | cons piece pieces => simp [hc]

/-- Pieces that are each closed by a separator stand before those of the rest. -/
theorem split_flatMap_append {pieces : List (List Char)} (h : ∀ piece ∈ pieces, sep ∉ piece)
    (cs : List Char) : split sep (pieces.flatMap (· ++ [sep]) ++ cs) = pieces ++ split sep cs := by
  induction pieces with
  | nil => rfl
  | cons piece pieces ih =>
    rw [List.flatMap_cons, List.append_assoc, List.append_assoc, List.singleton_append,
      split_append_cons, split_of_not_mem (h piece List.mem_cons_self),
      ih fun other hother => h other (List.mem_cons_of_mem _ hother)]
    rfl

theorem not_mem_of_mem_split {cs piece : List Char} (h : piece ∈ split sep cs) : sep ∉ piece := by
  induction cs generalizing piece with
  | nil => simp_all [split]
  | cons c cs ih =>
    simp only [split] at h
    split at h
    · rcases List.mem_cons.1 h with rfl | h
      · simp
      · exact ih h
    · next hc =>
      cases hs : split sep cs with
      | nil => exact absurd hs (split_ne_nil sep cs)
      | cons first pieces =>
        rw [hs] at h ih
        rcases List.mem_cons.1 h with rfl | h
        · rw [List.mem_cons, not_or]
          exact ⟨Ne.symm hc, ih List.mem_cons_self⟩
        · exact ih (List.mem_cons_of_mem _ h)

theorem join_cons {pieces : List (List Char)} (piece : List Char) (h : pieces ≠ []) :
    join sep (piece :: pieces) = piece ++ sep :: join sep pieces := by
  cases pieces with
  | nil => exact absurd rfl h
  | cons next rest => rfl

theorem mem_join {pieces : List (List Char)} {c : Char} (h : c ∈ join sep pieces) :
    c = sep ∨ ∃ piece ∈ pieces, c ∈ piece := by
  induction pieces with
  | nil => cases h
  | cons piece pieces ih =>
    by_cases hnil : pieces = []
    · rw [hnil] at h
      exact .inr ⟨piece, List.mem_cons_self, h⟩
    · rw [join_cons piece hnil, List.mem_append, List.mem_cons] at h
      rcases h with h | h | h
      · exact .inr ⟨piece, List.mem_cons_self, h⟩
      · exact .inl h
      · refine (ih h).imp_right fun ⟨other, hother, hc⟩ => ?_
        exact ⟨other, List.mem_cons_of_mem _ hother, hc⟩

theorem join_append {front rest : List (List Char)} (hfront : front ≠ []) (hrest : rest ≠ []) :
    join sep (front ++ rest) = join sep front ++ sep :: join sep rest := by
  induction front with
  | nil => exact absurd rfl hfront
  | cons piece front ih =>
    by_cases hnil : front = []
    · rw [hnil]
      exact join_cons piece hrest
    · rw [List.cons_append, join_cons piece (List.append_ne_nil_of_left_ne_nil hnil rest),
        ih hnil, join_cons piece hnil, List.append_assoc, List.cons_append]

theorem split_join {pieces : List (List Char)} (hne : pieces ≠ [])
    (h : ∀ piece ∈ pieces, sep ∉ piece) : split sep (join sep pieces) = pieces := by
  induction pieces with
  | nil => exact absurd rfl hne
  | cons piece pieces ih =>
    have hpiece := h piece List.mem_cons_self
    by_cases hrest : pieces = []
    · rw [hrest]
      exact split_of_not_mem hpiece
    · rw [join_cons piece hrest, split_append_cons, split_of_not_mem hpiece,
        ih hrest fun other hother => h other (List.mem_cons_of_mem _ hother)]
      rfl

/-! ### The first piece -/

theorem cutAt_fst_of_not_mem {cs : List Char} (h : sep ∉ cs) : (cutAt sep cs).1 = cs := by
  induction cs with
  | nil => rfl
  | cons c cs ih =>
    rw [List.mem_cons, not_or] at h
    rw [cutAt, if_neg (Ne.symm h.1), ih h.2]

theorem cutAt_fst_append_cons (front rest : List Char) :
    (cutAt sep (front ++ sep :: rest)).1 = (cutAt sep front).1 := by
  induction front with
  | nil => simp [cutAt]
  | cons c front ih =>
    rw [List.cons_append, cutAt, cutAt]
    split
    · rfl
    · rw [ih]

/-! ### The last piece -/

theorem cutAtLast_append_cons {rest : List Char} (h : sep ∉ rest) (front : List Char) :
    cutAtLast sep (front ++ sep :: rest) = (front ++ [sep], rest) := by
  have hall : ∀ c ∈ rest.reverse, (c != sep) = true := fun c hc => by
    simpa using fun he : c = sep => h (he ▸ List.mem_reverse.1 hc)
  simp [cutAtLast, List.takeWhile_append_of_pos hall, List.dropWhile_append_of_pos hall]

end RegistryBlock.Text
