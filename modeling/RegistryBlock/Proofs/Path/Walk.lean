import RegistryBlock.Path.Basic
import RegistryBlock.Proofs.Text.Split

/-!
# Walks along segments

The segments that remain of a walk have names: none is empty or stays where it is, and those that
climb come first. A walk that does not climb out of the directory it starts in is the same walk
inside any other directory, with the name of that directory put in front. `join` is such a walk
along the segments of base and tail.
-/

namespace RegistryBlock.Path

/-! ### One step -/

/-- What a segment does to a walk: nothing, a step further down, or a climb, which is kept at the
start and behind other climbs, is lost at the root, and undoes any other step. -/
theorem step_cases (rooted : Bool) (before : List Segment) (seg : Segment) :
    (seg = [] ∨ seg = here) ∧ step rooted before seg = before ∨
    (seg ≠ [] ∧ seg ≠ here) ∧ seg ≠ up ∧ step rooted before seg = seg :: before ∨
    seg = up ∧ before = [] ∧ step rooted before seg = (if rooted then [] else [up]) ∨
    seg = up ∧ (∃ above, before = up :: above) ∧ step rooted before seg = up :: before ∨
    seg = up ∧ ∃ last, last ≠ up ∧ before = last :: step rooted before seg := by
  by_cases hstay : seg = [] ∨ seg = here
  · exact .inl ⟨hstay, by simp [step, hstay]⟩
  by_cases hup : seg = up
  · right; right
    subst hup
    cases before with
    | nil => exact .inl ⟨rfl, rfl, by simp [step, hstay]⟩
    | cons last above =>
      by_cases hlast : last = up
      · exact .inr (.inl ⟨rfl, ⟨above, by rw [hlast]⟩, by simp [step, hstay, hlast]⟩)
      · exact .inr (.inr ⟨rfl, last, hlast, by simp [step, hstay, hlast]⟩)
  · exact .inr (.inl ⟨not_or.1 hstay, hup, by simp [step, hstay, hup]⟩)

theorem mem_step {rooted : Bool} {before : List Segment} {seg other : Segment}
    (h : other ∈ step rooted before seg) :
    other ∈ before ∨ other = seg ∧ seg ≠ [] ∧ seg ≠ here := by
  have hup : up ≠ [] ∧ up ≠ here := by decide
  rcases step_cases rooted before seg with ⟨-, hs⟩ | ⟨hname, -, hs⟩ | ⟨rfl, -, hs⟩ |
    ⟨rfl, -, hs⟩ | ⟨rfl, last, -, hs⟩
  · exact .inl (hs ▸ h)
  · rw [hs, List.mem_cons] at h
    exact h.symm.imp id fun he => ⟨he, hname⟩
  · cases rooted
    · rw [hs] at h
      exact .inr ⟨by simpa using h, hup⟩
    · simp [hs] at h
  · rw [hs, List.mem_cons] at h
    exact h.symm.imp id fun he => ⟨he, hup⟩
  · rw [hs]
    exact .inl (List.mem_cons_of_mem _ h)

/-- A climb that is kept is never undone. -/
theorem up_mem_step {before : List Segment} (h : up ∈ before) (seg : Segment) :
    up ∈ step false before seg := by
  rcases step_cases false before seg with ⟨-, hs⟩ | ⟨-, -, hs⟩ | ⟨-, hbefore, -⟩ | ⟨-, -, hs⟩ |
    ⟨-, last, hlast, hs⟩
  · rwa [hs]
  · rw [hs]
    exact List.mem_cons_of_mem _ h
  · simp [hbefore] at h
  · rw [hs]
    exact List.mem_cons_self
  · rw [hs, List.mem_cons] at h
    exact h.resolve_left (Ne.symm hlast)

/-- If a climb is kept at all, then the first step is one. -/
def ClimbsFirst (before : List Segment) : Prop := up ∈ before → before.getLast? = some up

theorem ClimbsFirst.nil : ClimbsFirst [] := fun h => absurd h List.not_mem_nil

theorem ClimbsFirst.cons {before : List Segment} {seg : Segment} (h : ClimbsFirst before)
    (hseg : seg = up → before = [] ∨ up ∈ before) : ClimbsFirst (seg :: before) := by
  intro hmem
  have hcases : before = [] ∧ seg = up ∨ up ∈ before := by
    rcases List.mem_cons.1 hmem with rfl | hmem
    · exact (hseg rfl).imp (fun hnil => ⟨hnil, rfl⟩) id
    · exact .inr hmem
  rcases hcases with ⟨rfl, rfl⟩ | hbefore
  · rfl
  · rw [List.getLast?_cons, h hbefore, Option.getD_some]

theorem ClimbsFirst.step {before : List Segment} (h : ClimbsFirst before) (seg : Segment) :
    ClimbsFirst (step false before seg) := by
  rcases step_cases false before seg with ⟨-, hs⟩ | ⟨-, hup, hs⟩ | ⟨-, -, hs⟩ |
    ⟨-, ⟨above, habove⟩, hs⟩ | ⟨-, last, -, hs⟩
  · rwa [hs]
  · rw [hs]
    exact h.cons fun he => absurd he hup
  · rw [hs]
    exact ClimbsFirst.nil.cons fun _ => .inl rfl
  · rw [hs]
    exact h.cons fun _ => .inr (habove ▸ List.mem_cons_self)
  · intro hmem
    have hlast := h (hs ▸ List.mem_cons_of_mem _ hmem)
    rwa [hs, List.getLast?_cons_of_ne_nil (List.ne_nil_of_mem hmem)] at hlast

/-- What lies below the start of a walk does not matter to a step that keeps no climb. -/
theorem step_append {before : List Segment} {seg : Segment} (h : up ∉ step false before seg)
    (below : List Segment) :
    step false (before ++ below) seg = step false before seg ++ below := by
  rcases step_cases false before seg with ⟨hstay, hs⟩ | ⟨hname, hup, hs⟩ | ⟨-, -, hs⟩ |
    ⟨-, -, hs⟩ | ⟨rfl, last, hlast, hs⟩
  · rw [hs]
    simp [step, hstay]
  · rw [hs]
    simp [step, hname, hup]
  · exact absurd (hs ▸ List.mem_cons_self) h
  · exact absurd (hs ▸ List.mem_cons_self) h
  · generalize step false before up = after at hs ⊢
    have hup : up ≠ [] ∧ up ≠ here := by decide
    rw [hs]
    simp [step, hlast, hup]

/-! ### A whole walk -/

theorem up_mem_foldl_step {before : List Segment} (h : up ∈ before) (segs : List Segment) :
    up ∈ segs.foldl (step false) before := by
  induction segs generalizing before with
  | nil => exact h
  | cons seg segs ih => exact ih (up_mem_step h seg)

theorem foldl_step_append {before : List Segment} (segs : List Segment)
    (h : up ∉ segs.foldl (step false) before) (below : List Segment) :
    segs.foldl (step false) (before ++ below) = segs.foldl (step false) before ++ below := by
  induction segs generalizing before with
  | nil => rfl
  | cons seg segs ih =>
    have hstep : up ∉ step false before seg := fun hup => h (up_mem_foldl_step hup segs)
    rw [List.foldl_cons, List.foldl_cons, step_append hstep, ih h]

theorem mem_foldl_step {rooted : Bool} {before segs : List Segment} {seg : Segment}
    (h : seg ∈ segs.foldl (step rooted) before) :
    seg ∈ before ∨ seg ∈ segs ∧ seg ≠ [] ∧ seg ≠ here := by
  induction segs generalizing before with
  | nil => exact .inl h
  | cons first segs ih =>
    rcases ih h with h | ⟨h, hname⟩
    · rcases mem_step h with h | ⟨rfl, hname⟩
      · exact .inl h
      · exact .inr ⟨List.mem_cons_self, hname⟩
    · exact .inr ⟨List.mem_cons_of_mem _ h, hname⟩

theorem ClimbsFirst.foldl {before : List Segment} (h : ClimbsFirst before) (segs : List Segment) :
    ClimbsFirst (segs.foldl (Path.step false) before) := by
  induction segs generalizing before with
  | nil => exact h
  | cons seg segs ih => exact ih (h.step seg)

theorem mem_walk {rooted : Bool} {segs : List Segment} {seg : Segment}
    (h : seg ∈ walk rooted segs) : seg ∈ segs ∧ seg ≠ [] ∧ seg ≠ here := by
  simpa using mem_foldl_step (List.mem_reverse.1 h)

theorem head?_walk_of_up_mem {segs : List Segment} (h : up ∈ walk false segs) :
    (walk false segs).head? = some up := by
  rw [walk, List.head?_reverse]
  exact ClimbsFirst.nil.foldl segs (List.mem_reverse.1 h)

/-- A walk inside a directory that it does not leave. -/
theorem walk_cons {dir : Segment} (hdir : dir ≠ [] ∧ dir ≠ here ∧ dir ≠ up) {segs : List Segment}
    (h : up ∉ walk false segs) : walk false (dir :: segs) = dir :: walk false segs := by
  have hfirst : step false [] dir = [] ++ [dir] := by simp [step, hdir]
  rw [walk, List.foldl_cons, hfirst, foldl_step_append segs fun hup => h (List.mem_reverse.2 hup)]
  simp [walk]

theorem walk_append_stay (rooted : Bool) {seg : Segment} (h : seg = [] ∨ seg = here)
    (segs rest : List Segment) :
    walk rooted (segs ++ seg :: rest) = walk rooted (segs ++ rest) := by
  simp [walk, step, h]

theorem walk_append_nil_segment (rooted : Bool) (segs rest : List Segment) :
    walk rooted (segs ++ [] :: rest) = walk rooted (segs ++ rest) :=
  walk_append_stay rooted (.inl rfl) segs rest

end RegistryBlock.Path
