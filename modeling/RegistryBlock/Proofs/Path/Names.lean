import RegistryBlock.Proofs.Path.Normal

/-!
# Walks along names

A walk takes every name that it meets, and as many climbs as there were names lead back to where
they began. So a row of names is its own walk, and the way that climbs out of some directories may
be left out of a walk together with them.
-/

namespace RegistryBlock.Path

variable {segs : List Segment}

theorem step_of_isName (rooted : Bool) (before : List Segment) {seg : Segment} (h : IsName seg) :
    step rooted before seg = seg :: before := by
  simp [step, h.1, h.2.1, h.2.2]

theorem step_up_cons (rooted : Bool) (before : List Segment) {seg : Segment} (h : seg ≠ up) :
    step rooted (seg :: before) up = before := by
  have hup : up ≠ [] ∧ up ≠ here := by decide
  simp [step, hup, h]

theorem foldl_step_of_names (rooted : Bool) (h : ∀ seg ∈ segs, IsName seg)
    (before : List Segment) : segs.foldl (step rooted) before = segs.reverse ++ before := by
  induction segs generalizing before with
  | nil => rfl
  | cons seg segs ih =>
    rw [List.foldl_cons, step_of_isName rooted before (h seg List.mem_cons_self),
      ih fun other hother => h other (List.mem_cons_of_mem _ hother), List.reverse_cons,
      List.append_assoc, List.singleton_append]

/-- A row of names is its own walk. -/
theorem walk_of_names (rooted : Bool) (h : ∀ seg ∈ segs, IsName seg) :
    walk rooted segs = segs := by
  rw [walk, foldl_step_of_names rooted h, List.append_nil, List.reverse_reverse]

/-! ### Climbing back -/

/-- The way from a file up and out of the directories that it lies in; with no directory to leave
it stays where it is. -/
def climb (down : List Segment) : List Segment :=
  if down = [] then [here] else List.replicate down.length up

theorem slash_not_mem_of_mem_climb {down : List Segment} {seg : Segment} (h : seg ∈ climb down) :
    '/' ∉ seg := by
  have hdots : '/' ∉ here ∧ '/' ∉ up := by decide
  unfold climb at h
  split at h
  · rw [List.mem_singleton.1 h]
    exact hdots.1
  · rw [(List.mem_replicate.1 h).2]
    exact hdots.2

theorem foldl_step_replicate_up (rooted : Bool) (h : ∀ seg ∈ segs, IsName seg)
    (before : List Segment) :
    (segs ++ List.replicate segs.length up).foldl (step rooted) before = before := by
  induction segs generalizing before with
  | nil => rfl
  | cons seg segs ih =>
    have hseg := h seg List.mem_cons_self
    have hsplit : seg :: segs ++ List.replicate (seg :: segs).length up =
        seg :: (segs ++ List.replicate segs.length up) ++ [up] := by
      rw [List.length_cons, List.replicate_succ', List.cons_append, List.cons_append,
        List.append_assoc]
    rw [hsplit, List.foldl_append, List.foldl_cons, List.foldl_nil, List.foldl_cons,
      step_of_isName rooted before hseg,
      ih fun other hother => h other (List.mem_cons_of_mem _ hother)]
    exact step_up_cons rooted before hseg.2.2

/-- Directories and the way out of them make no difference to a walk. -/
theorem walk_append_climb (rooted : Bool) {down : List Segment} (h : ∀ seg ∈ down, IsName seg)
    (front rest : List Segment) :
    walk rooted (front ++ down ++ (climb down ++ rest)) = walk rooted (front ++ rest) := by
  have hclimb (before : List Segment) :
      (down ++ climb down).foldl (step rooted) before = before := by
    unfold climb
    split
    · next hdown => simp [hdown, step]
    · exact foldl_step_replicate_up rooted h before
  rw [walk, walk, List.append_assoc, ← List.append_assoc down, List.foldl_append,
    List.foldl_append, hclimb, ← List.foldl_append]

/-! ### Walks that stay inside -/

/-- Whether a way leads from one place to another without climbing above the start of all places:
empty segments and `.` stay, a name goes down, and `..` goes back up. -/
inductive Leads : List Segment → List Segment → List Segment → Prop where
  | arrive (place : List Segment) : Leads place [] place
  | stay {place way goal : List Segment} {seg : Segment} (h : seg = [] ∨ seg = here)
      (hrest : Leads place way goal) : Leads place (seg :: way) goal
  | down {place way goal : List Segment} {seg : Segment} (h : IsName seg)
      (hrest : Leads (place ++ [seg]) way goal) : Leads place (seg :: way) goal
  | climb {place way goal : List Segment} (h : place ≠ [])
      (hrest : Leads place.dropLast way goal) : Leads place (up :: way) goal

/-- From a place with names, the walk along a way that stays inside arrives where the way leads. -/
theorem Leads.walk_eq {place way goal : List Segment} (h : Leads place way goal)
    (hplace : ∀ seg ∈ place, IsName seg) (rooted : Bool) : walk rooted (place ++ way) = goal := by
  induction h with
  | arrive place => rw [List.append_nil, walk_of_names rooted hplace]
  | stay hseg _ ih => rw [walk_append_stay rooted hseg, ih hplace]
  | down hseg _ ih =>
    rw [List.append_cons]
    refine ih fun seg hmem => ?_
    rcases List.mem_append.1 hmem with hmem | hmem
    · exact hplace seg hmem
    · rwa [List.mem_singleton.1 hmem]
  | @climb place way goal hne _ ih =>
    have hlast := List.dropLast_concat_getLast hne
    have hname : ∀ seg ∈ [place.getLast hne], IsName seg := fun seg hseg =>
      hplace seg (List.mem_singleton.1 hseg ▸ List.getLast_mem hne)
    have hback := walk_append_climb rooted hname place.dropLast way
    rw [hlast] at hback
    exact hback.trans (ih fun seg hseg => hplace seg (List.dropLast_subset _ hseg))

/-- The names on the way from the project to a path, none if the path is the project itself. -/
def names (path : String) : List Segment := if path = "" then [] else segments path.toList

theorem ofSegments_names (path : String) : ofSegments (names path) = path.toList := by
  unfold names
  split
  · next h =>
    rw [h]
    rfl
  · exact ofSegments_segments path.toList

theorem names_of_isNormal {path : String} (h : IsNormal path) :
    names path = segments path.toList := if_neg h.ne_empty

/-! ### Segments of written rows -/

/-- A row of segments that is written and read again makes no difference to a walk. -/
theorem walk_segments_ofSegments (rooted : Bool) (h : ∀ seg ∈ segs, '/' ∉ seg)
    (front rest : List Segment) :
    walk rooted (front ++ (segments (ofSegments segs) ++ rest)) =
      walk rooted (front ++ (segs ++ rest)) := by
  by_cases hne : segs = []
  · rw [hne]
    exact walk_append_nil_segment rooted front rest
  · rw [segments_ofSegments hne h]

end RegistryBlock.Path
