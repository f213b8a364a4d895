import Mathlib.Data.List.TakeWhile
import RegistryBlock.Text.Basic

/-!
# Fronts and ends of a text

A text whose end is dropped begins as the text itself begins, and what is dropped behind a
character that stays does not depend on anything before it. A front of one kind of character is
taken off whole if another kind follows. A front without separators is found before the first
separator or not at all.
-/

namespace RegistryBlock.Text

variable {p : Char → Bool}

theorem head?_dropWhile {cs : List Char} {c : Char} (h : (cs.dropWhile p).head? = some c) :
    p c = false := by
  have hnot := List.head?_dropWhile_not p cs
  rwa [h] at hnot

theorem dropEndWhile_isPrefix (cs : List Char) : dropEndWhile p cs <+: cs := by
  rw [dropEndWhile, ← List.reverse_suffix, List.reverse_reverse]
  exact List.dropWhile_suffix p

theorem head?_dropEndWhile {cs : List Char} {c : Char} (h : (dropEndWhile p cs).head? = some c) :
    cs.head? = some c := by
  obtain ⟨rest, hrest⟩ := dropEndWhile_isPrefix (p := p) cs
  obtain ⟨tail, htail⟩ := List.head?_eq_some_iff.1 h
  rw [← hrest, htail]
  rfl

theorem head?_trimBy {cs : List Char} {c : Char} (h : (trimBy p cs).head? = some c) :
    p c = false :=
  head?_dropWhile (head?_dropEndWhile h)

theorem trimBy_subset (cs : List Char) : trimBy p cs ⊆ cs := fun _ h =>
  (List.dropWhile_suffix p).subset ((dropEndWhile_isPrefix _).subset h)

theorem dropEndWhile_append_cons {c : Char} (hc : p c = false) (front rest : List Char) :
    dropEndWhile p (front ++ c :: rest) = front ++ dropEndWhile p (c :: rest) := by
  simp only [dropEndWhile, List.reverse_append, List.reverse_cons, List.append_assoc,
    List.dropWhile_append]
  split <;> simp [hc]

theorem getLast?_dropEndWhile {cs : List Char} {c : Char}
    (h : (dropEndWhile p cs).getLast? = some c) : p c = false := by
  rw [dropEndWhile, List.getLast?_reverse] at h
  exact head?_dropWhile h

theorem dropEndWhile_append {cs : List Char} (h : dropEndWhile p cs ≠ []) (front : List Char) :
    dropEndWhile p (front ++ cs) = front ++ dropEndWhile p cs := by
  have hrest : (cs.reverse.dropWhile p).isEmpty = false := by simpa [dropEndWhile] using h
  simp [dropEndWhile, List.dropWhile_append, hrest]

/-- The ends of a text are dropped in either order. -/
theorem dropWhile_dropEndWhile (cs : List Char) :
    (dropEndWhile p cs).dropWhile p = trimBy p cs := by
  have hfront : ∀ c ∈ cs.takeWhile p, p c = true := List.all_eq_true.1 List.all_takeWhile
  have hcs : cs.takeWhile p ++ cs.dropWhile p = cs := List.takeWhile_append_dropWhile
  rw [trimBy]
  cases hbody : cs.dropWhile p with
  | nil =>
    rw [hbody, List.append_nil] at hcs
    exact List.dropWhile_eq_nil_iff.2 fun c hc =>
      hfront c (hcs.symm ▸ (dropEndWhile_isPrefix cs).subset hc)
  | cons c body =>
    have hhead : (cs.dropWhile p).head? = some c := by rw [hbody, List.head?_cons]
    have hc := head?_dropWhile hhead
    rw [hbody] at hcs
    rw [← hcs, dropEndWhile_append_cons hc, List.dropWhile_append_of_pos hfront]
    cases hend : dropEndWhile p (c :: body) with
    | nil => rfl
    | cons d rest =>
      have hd : (c :: body).head? = some d := head?_dropEndWhile (by rw [hend, List.head?_cons])
      obtain rfl := Option.some.inj hd
      exact List.dropWhile_cons_of_neg (by simp [hc])

section Front

variable {front rest : List Char}

theorem takeWhile_append_eq_left (hfront : ∀ c ∈ front, p c = true)
    (hrest : ∀ c ∈ rest.head?, p c = false) : (front ++ rest).takeWhile p = front := by
  rw [List.takeWhile_append_of_pos hfront]
  cases rest with
  | nil => exact List.append_nil front
  | cons c rest => rw [List.takeWhile_cons_of_neg (by simp [hrest c rfl]), List.append_nil]

theorem dropWhile_append_eq_right (hfront : ∀ c ∈ front, p c = true)
    (hrest : ∀ c ∈ rest.head?, p c = false) : (front ++ rest).dropWhile p = rest := by
  rw [List.dropWhile_append_of_pos hfront]
  cases rest with
  | nil => rfl
  | cons c rest => exact List.dropWhile_cons_of_neg (by simp [hrest c rfl])

end Front

theorem startsWith_iff_isPrefix {front cs : List Char} :
    startsWith front cs = true ↔ front <+: cs := by
  rw [startsWith_iff]
  exact exists_congr fun rest => eq_comm

theorem startsWith_append_cons {sep : Char} {front : List Char} (h : sep ∉ front)
    (cs rest : List Char) : startsWith front (cs ++ sep :: rest) = startsWith front cs := by
  rw [Bool.eq_iff_iff, startsWith_iff, startsWith_iff]
  constructor
  · rintro ⟨more, hmore⟩
    rcases List.append_eq_append_iff.1 hmore with ⟨extra, hfront, hrest⟩ | ⟨extra, hcs, -⟩
    · cases extra with
      | nil => exact ⟨[], by simp [hfront]⟩
      | cons c extra =>
        obtain ⟨rfl, -⟩ := List.cons.inj hrest
        exact absurd (by simp [hfront]) h
    · exact ⟨extra, hcs⟩
  · rintro ⟨more, rfl⟩
    exact ⟨more ++ sep :: rest, List.append_assoc ..⟩

theorem endsWith_append_cons {sep : Char} {tail : List Char} (h : sep ∉ tail)
    (front cs : List Char) : endsWith tail (front ++ sep :: cs) = endsWith tail cs := by
  rw [endsWith, endsWith, List.reverse_append, List.reverse_cons, List.append_assoc]
  exact startsWith_append_cons (by simpa using h) _ _

end RegistryBlock.Text
