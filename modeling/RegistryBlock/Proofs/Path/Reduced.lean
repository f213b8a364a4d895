import Mathlib.Data.List.Basic
import RegistryBlock.Proofs.Path.Names

/-!
# Joining step by step

What remains of a walk is reduced: first it climbs, then it goes down along names. A reduced row is
its own walk, so a walk may stop on the way and go on later from the path that it has led to.
Joining two tails one after the other is joining them at once, and a joined path is joined with `.`
to itself.
-/

namespace RegistryBlock.Path

variable {segs before : List Segment}

/-! ### Reduced rows -/

/-- Whether a row of segments first climbs and then goes down along names. -/
def IsReduced (segs : List Segment) : Prop :=
  ∃ climbs down, segs = List.replicate climbs up ++ down ∧ ∀ seg ∈ down, IsName seg

theorem isReduced_replicate_up (climbs : Nat) : IsReduced (List.replicate climbs up) :=
  ⟨climbs, [], (List.append_nil _).symm, List.forall_mem_nil _⟩

theorem IsReduced.concat (h : IsReduced segs) {seg : Segment} (hseg : IsName seg) :
    IsReduced (segs ++ [seg]) := by
  obtain ⟨climbs, down, rfl, hdown⟩ := h
  refine ⟨climbs, down ++ [seg], List.append_assoc .., fun other hother => ?_⟩
  rcases List.mem_append.1 hother with hother | hother
  · exact hdown other hother
  · rwa [List.mem_singleton.1 hother]

/-- Before a climb there are only climbs. -/
theorem IsReduced.eq_replicate (h : IsReduced (segs ++ [up])) :
    ∃ climbs, segs = List.replicate climbs up := by
  obtain ⟨climbs, down, hsegs, hdown⟩ := h
  rcases List.eq_nil_or_concat' down with rfl | ⟨front, last, rfl⟩
  · have hall := List.eq_replicate_iff.1 (hsegs.trans (List.append_nil _))
    exact ⟨segs.length, List.eq_replicate_iff.2
      ⟨rfl, fun seg hseg => hall.2 seg (List.mem_append_left _ hseg)⟩⟩
  · rw [← List.append_assoc] at hsegs
    obtain ⟨-, hlast⟩ := List.append_inj' hsegs rfl
    obtain rfl := List.singleton_inj.1 hlast
    exact absurd rfl (hdown up (by simp)).2.2

/-- What stands before a name is reduced. -/
theorem IsReduced.of_concat {last : Segment} (h : IsReduced (segs ++ [last])) (hlast : last ≠ up) :
    IsReduced segs := by
  obtain ⟨climbs, down, hsegs, hdown⟩ := h
  rcases List.eq_nil_or_concat' down with rfl | ⟨front, name, rfl⟩
  · have hall := List.eq_replicate_iff.1 (hsegs.trans (List.append_nil _))
    exact absurd (hall.2 last (by simp)) hlast
  · rw [← List.append_assoc] at hsegs
    exact ⟨climbs, front, (List.append_inj' hsegs rfl).1,
      fun seg hseg => hdown seg (List.mem_append_left _ hseg)⟩

/-- A step keeps the row reduced. -/
theorem IsReduced.step (h : IsReduced before.reverse) (seg : Segment) :
    IsReduced (Path.step false before seg).reverse := by
  rcases step_cases false before seg with ⟨-, hs⟩ | ⟨⟨hne, hhere⟩, hup, hs⟩ | ⟨-, -, hs⟩ |
    ⟨-, ⟨above, rfl⟩, hs⟩ | ⟨-, last, hlast, hs⟩
  · rwa [hs]
  · rw [hs, List.reverse_cons]
    exact h.concat ⟨hne, hhere, hup⟩
  · rw [hs]
    exact isReduced_replicate_up 1
  · -- A climb stands last, so the row is nothing but climbs and gets one more.
    rw [List.reverse_cons] at h
    obtain ⟨climbs, hclimbs⟩ := h.eq_replicate
    rw [hs, List.reverse_cons, List.reverse_cons, hclimbs, ← List.replicate_succ',
      ← List.replicate_succ']
    exact isReduced_replicate_up _
  · rw [hs, List.reverse_cons] at h
    exact h.of_concat hlast

theorem IsReduced.foldl (h : IsReduced before.reverse) (segs : List Segment) :
    IsReduced (segs.foldl (Path.step false) before).reverse := by
  induction segs generalizing before with
  | nil => exact h
  | cons seg segs ih => exact ih (h.step seg)

theorem isReduced_walk (segs : List Segment) : IsReduced (walk false segs) := by
  have hstart : IsReduced ([] : List Segment).reverse := isReduced_replicate_up 0
  exact hstart.foldl segs

/-! ### Going on -/

theorem foldl_step_replicate (climbs : Nat) :
    (List.replicate climbs up).foldl (step false) [] = List.replicate climbs up := by
  induction climbs with
  | zero => rfl
  | succ climbs ih =>
    rw [List.replicate_succ', List.foldl_append, ih, ← List.replicate_succ']
    cases climbs with
    | zero => rfl
    | succ climbs => rfl

/-- A reduced row is its own walk. -/
theorem IsReduced.foldl_step (h : IsReduced segs) :
    segs.foldl (Path.step false) [] = segs.reverse := by
  obtain ⟨climbs, down, rfl, hdown⟩ := h
  rw [List.foldl_append, foldl_step_replicate, foldl_step_of_names false hdown,
    List.reverse_append, List.reverse_replicate]

/-- To go on from where a walk has led is to go on along the way. -/
theorem walk_walk_append (segs rest : List Segment) :
    walk false (walk false segs ++ rest) = walk false (segs ++ rest) := by
  have hfold : (walk false segs).foldl (step false) [] = segs.foldl (step false) [] := by
    rw [(isReduced_walk segs).foldl_step, walk, List.reverse_reverse]
  unfold walk at hfold ⊢
  rw [List.foldl_append, hfold, List.foldl_append]

variable {base tail rest : List Char}

/-- A joined path goes on like the walk that has led to it. -/
theorem join_join_eq (hbase : IsRelative base) (htail : IsRelative tail)
    (hrest : IsRelative rest) :
    join (join base tail) rest =
      ofSegments (walk false (segments base ++ segments tail ++ segments rest)) := by
  have hslash : ∀ seg ∈ walk false (segments base ++ segments tail), '/' ∉ seg := fun seg hseg =>
    slash_not_mem_of_mem_segments_append base tail seg (mem_walk hseg).1
  have hwritten := walk_segments_ofSegments false hslash [] (segments rest)
  rw [List.nil_append, List.nil_append] at hwritten
  rw [join_eq (isRelative_join hbase htail) hrest, join_eq hbase htail, hwritten, walk_walk_append]

/-- Joining two tails one after the other to a base is joining them at once, with a slash between
them. A joined path is empty, or it first climbs and then goes down along names; it is joined with
`.` to itself. -/
theorem join_goes_on (hbase : IsRelative base) :
    (∀ first rest, first ≠ [] → IsRelative first → IsRelative rest →
      join (join base first) rest = join base (first ++ '/' :: rest)) ∧
    ∀ tail, IsRelative tail →
      (join base tail = [] ∨ IsReduced (segments (join base tail))) ∧
        join (join base tail) here = join base tail := by
  refine ⟨fun first rest hne hfirst hrest => ?_, fun tail htail => ⟨?_, ?_⟩⟩
  · rw [join_join_eq hbase hfirst hrest, join_eq hbase (isRelative_append hfirst hne _),
      segments_append_cons, List.append_assoc]
  · by_cases hnil : join base tail = []
    · exact .inl hnil
    · rw [segments_join hbase htail hnil]
      exact .inr (isReduced_walk _)
  · have hhere : IsRelative here := by simp [IsRelative, here]
    have hsegs : segments here = [here] := rfl
    rw [join_join_eq hbase htail hhere, hsegs, walk_append_stay false (.inr rfl), List.append_nil,
      join_eq hbase htail]

theorem join_goes_on_lib :
    let base := "src/app".toList
    let first := "./../../..".toList
    let rest := "lib//./icons/".toList
    IsRelative base ∧ first ≠ [] ∧ IsRelative first ∧ IsRelative rest ∧
      join (join base first) rest = join base (first ++ '/' :: rest) ∧
      join (join base first) rest = "../lib/icons".toList ∧
      IsReduced (segments (join base first)) ∧ join (join base first) here = join base first := by
  intro base first rest
  have hbase : IsRelative base := by simp [IsRelative, base]
  have hfirst : IsRelative first := by simp [IsRelative, first]
  have hrest : IsRelative rest := by simp [IsRelative, rest]
  have hne : first ≠ [] := by simp [first]
  have hjoin : join base first ≠ [] := by decide
  obtain ⟨hsteps, hresult⟩ := join_goes_on hbase
  refine ⟨hbase, hne, hfirst, hrest, hsteps first rest hne hfirst hrest, by decide, ?_, ?_⟩
  · exact (hresult first hfirst).1.resolve_left hjoin
  · exact (hresult first hfirst).2

end RegistryBlock.Path
