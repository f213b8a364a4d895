/-!
# First occurrences

`distinctBy f seen l` keeps the first element of `l` for every value of `f` that is not in `seen`.
-/

namespace RegistryBlock

variable {α β : Type} [DecidableEq β]

/-- The elements of a list that are the first with their value of `f`, less those with a value in
`seen`. -/
def distinctBy (f : α → β) (seen : List β) : List α → List α
  | [] => []
  | a :: l =>
    if f a ∈ seen then distinctBy f seen l else a :: distinctBy f (f a :: seen) l

theorem mem_map_distinctBy {f : α → β} {seen : List β} {l : List α} {b : β} :
    b ∈ (distinctBy f seen l).map f ↔ b ∈ l.map f ∧ b ∉ seen := by
  induction l generalizing seen with
  | nil => simp [distinctBy]
  | cons a l ih =>
    simp only [distinctBy, List.map_cons, List.mem_cons]
    split
    · next ha =>
      rw [ih]
      constructor
      · exact fun ⟨h, hn⟩ => ⟨.inr h, hn⟩
      · rintro ⟨rfl | h, hn⟩
        · exact absurd ha hn
        · exact ⟨h, hn⟩
    · next ha =>
      rw [List.map_cons, List.mem_cons, ih, List.mem_cons]
      constructor
      · rintro (rfl | ⟨h, hn⟩)
        · exact ⟨.inl rfl, ha⟩
        · exact ⟨.inr h, fun h' => hn (.inr h')⟩
      · rintro ⟨rfl | h, hn⟩
        · exact .inl rfl
        · by_cases hb : b = f a
          · exact .inl hb
          · exact .inr ⟨h, by simp [hb, hn]⟩

theorem nodup_map_distinctBy (f : α → β) (seen : List β) (l : List α) :
    ((distinctBy f seen l).map f).Nodup := by
  induction l generalizing seen with
  | nil => simp [distinctBy]
  | cons a l ih =>
    simp only [distinctBy]
    split
    · exact ih seen
    · exact List.nodup_cons.2 ⟨fun h => (mem_map_distinctBy.1 h).2 (by simp), ih _⟩

theorem mem_distinctBy_id {seen l : List β} {b : β} :
    b ∈ distinctBy id seen l ↔ b ∈ l ∧ b ∉ seen := by
  simpa only [List.map_id] using mem_map_distinctBy (f := id) (l := l)

theorem nodup_distinctBy_id (seen l : List β) : (distinctBy id seen l).Nodup := by
  simpa only [List.map_id] using nodup_map_distinctBy id seen l

theorem distinctBy_sublist (f : α → β) (seen : List β) (l : List α) :
    (distinctBy f seen l).Sublist l := by
  induction l generalizing seen with
  | nil => exact List.Sublist.slnil
  | cons a l ih =>
    simp only [distinctBy]
    split
    · exact (ih seen).cons a
    · exact (ih _).cons_cons a

/-- Only the members of `seen` count, not their order or number. -/
theorem distinctBy_congr_seen (f : α → β) {seen other : List β} (h : ∀ b, b ∈ seen ↔ b ∈ other)
    (l : List α) : distinctBy f seen l = distinctBy f other l := by
  induction l generalizing seen other with
  | nil => rfl
  | cons a l ih =>
    have hmore : ∀ b, b ∈ f a :: seen ↔ b ∈ f a :: other := by simp [h]
    simp only [distinctBy, h, ih h, ih hmore]

/-- Nothing is left out of a list with different values of `f`, none of them seen. -/
theorem distinctBy_eq_self {f : α → β} {seen : List β} {l : List α} (h : (l.map f).Nodup)
    (hseen : ∀ a ∈ l, f a ∉ seen) : distinctBy f seen l = l := by
  induction l generalizing seen with
  | nil => rfl
  | cons a l ih =>
    rw [List.map_cons, List.nodup_cons] at h
    rw [distinctBy, if_neg (hseen a List.mem_cons_self), ih h.2]
    intro b hb
    rw [List.mem_cons, not_or]
    refine ⟨fun heq => h.1 (heq ▸ List.mem_map_of_mem hb), hseen b (List.mem_cons_of_mem a hb)⟩

/-- Equal elements have one first occurrence. -/
theorem distinctBy_id_of_forall_eq {l : List β} {b : β} (h : ∀ a ∈ l, a = b) :
    distinctBy id [] l = if l = [] then [] else [b] := by
  cases l with
  | nil => rfl
  | cons a l =>
    have hrest : distinctBy id [a] l = [] := by
      refine List.eq_nil_iff_forall_not_mem.2 fun c hc => ?_
      obtain ⟨hmem, hseen⟩ := mem_distinctBy_id.1 hc
      refine hseen (List.mem_singleton.2 ?_)
      rw [h c (List.mem_cons_of_mem a hmem), h a List.mem_cons_self]
    rw [distinctBy, if_neg List.not_mem_nil, if_neg (List.cons_ne_nil a l), id, hrest,
      h a List.mem_cons_self]

/-- First occurrences stand in the order of the places where they are found first. -/
theorem pairwise_findIdx_distinctBy (f : α → Option β) (seen : List β) (l : List α) :
    (distinctBy id seen (l.filterMap f)).Pairwise fun b c =>
      (l.findIdx fun a => f a = some b) < l.findIdx fun a => f a = some c := by
  induction l generalizing seen with
  | nil => exact List.Pairwise.nil
  | cons a l ih =>
    have hshift : ∀ b, f a ≠ some b → ((a :: l).findIdx fun a => f a = some b) =
        (l.findIdx fun a => f a = some b) + 1 := by
      intro b hb
      rw [List.findIdx_cons, decide_eq_false hb, cond_false]
    have hrest : ∀ more, (∀ b ∈ distinctBy id more (l.filterMap f), f a ≠ some b) →
        (distinctBy id more (l.filterMap f)).Pairwise fun b c =>
          ((a :: l).findIdx fun a => f a = some b) < (a :: l).findIdx fun a => f a = some c := by
      intro more hne
      refine (ih more).imp_of_mem fun hb hc hlt => ?_
      rw [hshift _ (hne _ hb), hshift _ (hne _ hc)]
      exact Nat.succ_lt_succ hlt
    cases ha : f a with
    | none =>
      rw [List.filterMap_cons_none ha]
      exact hrest seen fun b _ => by simp [ha]
    | some b =>
      have hne : ∀ more, b ∈ more → ∀ c ∈ distinctBy id more (l.filterMap f), f a ≠ some c := by
        intro more hb c hc heq
        obtain rfl := Option.some.inj (ha.symm.trans heq)
        exact (mem_distinctBy_id.1 hc).2 hb
      rw [List.filterMap_cons_some ha, distinctBy]
      split
      · next hb => exact hrest seen (hne seen hb)
      · refine List.pairwise_cons.2 ⟨fun c hc => ?_, hrest _ (hne _ List.mem_cons_self)⟩
        rw [hshift c (hne _ List.mem_cons_self c hc), List.findIdx_cons, decide_eq_true ha,
          cond_true]
        exact Nat.succ_pos _

/-- Taking different elements of a list away shortens it by as many. -/
theorem length_filter_not_mem_add_le {u new : List β} (hn : new.Nodup) (hu : ∀ b ∈ new, b ∈ u) :
    (u.filter (· ∉ new)).length + new.length ≤ u.length := by
  induction new generalizing u with
  | nil => exact List.length_filter_le _ u
  | cons b new ih =>
    have hb : b ∈ u := hu b (by simp)
    have hsplit : u.filter (· ∉ b :: new) = (u.filter (· ≠ b)).filter (· ∉ new) := by
      rw [List.filter_filter]
      congr 1
      funext c
      by_cases hc : c = b <;> simp [hc]
    have hless : (u.filter (· ≠ b)).length < u.length :=
      List.length_filter_lt_length_iff_exists.2 ⟨b, hb, by simp⟩
    have := ih (u := u.filter (· ≠ b)) (List.nodup_cons.1 hn).2 fun c hc =>
      List.mem_filter.2 ⟨hu c (by simp [hc]), by
        have : c ≠ b := fun h => (List.nodup_cons.1 hn).1 (h ▸ hc)
        simpa using this⟩
    rw [hsplit, List.length_cons]
    omega

end RegistryBlock
