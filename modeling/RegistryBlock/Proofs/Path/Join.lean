import RegistryBlock.Proofs.Path.Walk

/-!
# Joined paths

A base and a tail that do not start at the root are joined by the walk along the segments of both.
The walk keeps its place inside any directory: when it does not climb out, the path that it leads
to is that of the outer walk below the directory.
-/

namespace RegistryBlock.Path

/-- Whether a path does not start at the root. -/
def IsRelative (cs : List Char) : Prop := cs.head? ≠ some '/'

/-- Whether a segment leads to an entry of a directory. -/
def IsName (seg : Segment) : Prop := seg ≠ [] ∧ seg ≠ here ∧ seg ≠ up

instance (seg : Segment) : Decidable (IsName seg) :=
  inferInstanceAs (Decidable (seg ≠ [] ∧ seg ≠ here ∧ seg ≠ up))

/-- A path seen from the parent of the directory it starts in. -/
def inside (dir : Segment) (path : List Char) : List Char :=
  if path = [] then dir else dir ++ '/' :: path

theorem segments_ne_nil (cs : List Char) : segments cs ≠ [] := Text.split_ne_nil '/' cs

theorem segments_append_cons (front rest : List Char) :
    segments (front ++ '/' :: rest) = segments front ++ segments rest :=
  Text.split_append_cons front rest

theorem slash_not_mem_of_mem_segments {cs : List Char} {seg : Segment} (h : seg ∈ segments cs) :
    '/' ∉ seg :=
  Text.not_mem_of_mem_split h

theorem ofSegments_segments (cs : List Char) : ofSegments (segments cs) = cs :=
  Text.join_split '/' cs

theorem segments_ofSegments {segs : List Segment} (hne : segs ≠ []) (h : ∀ seg ∈ segs, '/' ∉ seg) :
    segments (ofSegments segs) = segs :=
  Text.split_join hne h

/-- Where the row of segments falls in two, a slash stands in the path. -/
theorem segments_eq_append_iff {cs : List Char} {front rest : List Segment} (hfront : front ≠ [])
    (hrest : rest ≠ []) :
    segments cs = front ++ rest ↔
      ∃ before after, cs = before ++ '/' :: after ∧ segments before = front ∧
        segments after = rest := by
  constructor
  · intro h
    have hslash : ∀ seg ∈ front ++ rest, '/' ∉ seg := fun seg hseg =>
      slash_not_mem_of_mem_segments (h ▸ hseg)
    refine ⟨ofSegments front, ofSegments rest, ?_, ?_, ?_⟩
    · rw [← ofSegments_segments cs, h]
      exact Text.join_append hfront hrest
    · exact segments_ofSegments hfront fun seg hseg => hslash seg (List.mem_append_left _ hseg)
    · exact segments_ofSegments hrest fun seg hseg => hslash seg (List.mem_append_right _ hseg)
  · rintro ⟨before, after, rfl, rfl, rfl⟩
    exact segments_append_cons before after

theorem ofSegments_cons {segs : List Segment} (dir : Segment) (h : ofSegments segs ≠ []) :
    ofSegments (dir :: segs) = inside dir (ofSegments segs) := by
  have hsegs : segs ≠ [] := fun he => h (by rw [he]; rfl)
  rw [inside, if_neg h]
  exact Text.join_cons dir hsegs

/-- A walk can be read off the path that it leads to. -/
theorem segments_ofSegments_walk {rooted : Bool} {segs : List Segment}
    (hsegs : ∀ seg ∈ segs, '/' ∉ seg) (h : walk rooted segs ≠ []) :
    segments (ofSegments (walk rooted segs)) = walk rooted segs :=
  segments_ofSegments h fun seg hseg => hsegs seg (mem_walk hseg).1

theorem ofSegments_walk_eq_nil_iff {rooted : Bool} {segs : List Segment}
    (hsegs : ∀ seg ∈ segs, '/' ∉ seg) :
    ofSegments (walk rooted segs) = [] ↔ walk rooted segs = [] := by
  constructor
  · intro h
    refine Classical.byContradiction fun hne => ?_
    have hwalk := segments_ofSegments_walk hsegs hne
    rw [h] at hwalk
    have hmem : [] ∈ walk rooted segs := hwalk ▸ List.mem_singleton_self []
    exact (mem_walk hmem).2.1 rfl
  · intro h
    rw [h]
    rfl

theorem ofSegments_walk_ne_here {rooted : Bool} {segs : List Segment}
    (hsegs : ∀ seg ∈ segs, '/' ∉ seg) : ofSegments (walk rooted segs) ≠ here := by
  intro h
  have hne : walk rooted segs ≠ [] := fun he => by simp [he, ofSegments, Text.join, here] at h
  have hwalk := segments_ofSegments_walk hsegs hne
  rw [h] at hwalk
  have hmem : here ∈ walk rooted segs := by
    rw [← hwalk]
    decide
  exact (mem_walk hmem).2.2 rfl

theorem opening_eq_nil {cs : List Char} (h : IsRelative cs) : opening cs = [] := by
  unfold opening
  split
  · exact absurd rfl h
  · exact absurd rfl h
  · exact absurd rfl h
  · rfl

theorem exists_opening_cons (rest : List Char) : ∃ more, opening ('/' :: rest) = '/' :: more := by
  unfold opening
  split
  · exact ⟨[], rfl⟩
  · exact ⟨['/'], rfl⟩
  · exact ⟨[], rfl⟩
  · next h => exact absurd rfl (h rest)

/-- A path from the root stays one. -/
theorem exists_normalize_cons (rest : List Char) :
    ∃ path, normalize ('/' :: rest) = '/' :: path := by
  obtain ⟨more, hopening⟩ := exists_opening_cons rest
  rw [normalize, hopening]
  exact ⟨_, rfl⟩

/-- A tail from the root is joined in the same way to every base. -/
theorem exists_join_cons (base rest : List Char) :
    ∃ path, join base ('/' :: rest) = '/' :: path ∧ join [] ('/' :: rest) = '/' :: path := by
  obtain ⟨path, hpath⟩ := exists_normalize_cons rest
  have hhere : '/' :: path ≠ here := by simp [here]
  refine ⟨path, ?_, ?_⟩
  · by_cases hbase : base = [] <;> simp [join, hbase, attach, hpath, hhere]
  · simp [join, hpath, hhere]

theorem normalize_eq {cs : List Char} (h : IsRelative cs) :
    normalize cs =
      if walk false (segments cs) = [] then here else ofSegments (walk false (segments cs)) := by
  have hsegs : ∀ seg ∈ segments cs, '/' ∉ seg := fun _ => slash_not_mem_of_mem_segments
  rw [normalize, opening_eq_nil h]
  simp only [bne_self_eq_false, List.nil_append, ← ofSegments_walk_eq_nil_iff hsegs]
  split
  · next hpath => rw [if_pos hpath]
  · next hpath => rw [if_neg hpath]

theorem join_nil_left {cs : List Char} (h : IsRelative cs) :
    join [] cs = ofSegments (walk false (segments cs)) := by
  have hsegs : ∀ seg ∈ segments cs, '/' ∉ seg := fun _ => slash_not_mem_of_mem_segments
  cases cs with
  | nil => rfl
  | cons c cs =>
    simp only [join, if_true, normalize_eq h]
    by_cases hwalk : walk false (segments (c :: cs)) = []
    · simp [hwalk, ofSegments, Text.join]
    · simp [hwalk, ofSegments_walk_ne_here hsegs]

theorem isRelative_append {base : List Char} (hbase : IsRelative base) (hne : base ≠ [])
    (rest : List Char) : IsRelative (base ++ rest) := by
  obtain ⟨c, cs, rfl⟩ := List.exists_cons_of_ne_nil hne
  exact hbase

theorem walk_segments_attach {base tail : List Char} (htail : IsRelative tail) :
    walk false (segments (attach base tail)) = walk false (segments base ++ segments tail) := by
  have hattach : attach base tail =
      if base.getLast? = some '/' then base ++ tail else base ++ '/' :: tail := by
    unfold attach
    split
    · exact absurd rfl htail
    · rfl
  rw [hattach]
  split
  · next hlast =>
    obtain ⟨front, rfl⟩ := List.getLast?_eq_some_iff.1 hlast
    rw [List.append_assoc, List.singleton_append, segments_append_cons, segments_append_cons,
      List.append_assoc]
    exact (walk_append_nil_segment false _ _).symm
  · rw [segments_append_cons]

theorem isRelative_attach {base tail : List Char} (hbase : IsRelative base) (hne : base ≠ [])
    (htail : IsRelative tail) : IsRelative (attach base tail) := by
  unfold attach
  split
  · exact absurd rfl htail
  · split
    · exact isRelative_append hbase hne _
    · exact isRelative_append hbase hne _

/-- Joining walks along the segments of the base and then of the tail. -/
theorem join_eq {base tail : List Char} (hbase : IsRelative base) (htail : IsRelative tail) :
    join base tail = ofSegments (walk false (segments base ++ segments tail)) := by
  by_cases hne : base = []
  · have hstart : segments base ++ segments tail = [] ++ [] :: segments tail := by rw [hne]; rfl
    rw [hstart, walk_append_nil_segment, List.nil_append, ← join_nil_left htail, hne]
  · rw [← walk_segments_attach htail, ← join_nil_left (isRelative_attach hbase hne htail)]
    simp [join, hne]

theorem slash_not_mem_of_mem_segments_append (base tail : List Char) :
    ∀ seg ∈ segments base ++ segments tail, '/' ∉ seg := by
  intro seg hseg
  rcases List.mem_append.1 hseg with hseg | hseg <;> exact slash_not_mem_of_mem_segments hseg

theorem segments_join {base tail : List Char} (hbase : IsRelative base) (htail : IsRelative tail)
    (hne : join base tail ≠ []) :
    segments (join base tail) = walk false (segments base ++ segments tail) := by
  have hslash := slash_not_mem_of_mem_segments_append base tail
  rw [join_eq hbase htail] at hne ⊢
  exact segments_ofSegments_walk hslash fun hnil =>
    hne ((ofSegments_walk_eq_nil_iff hslash).2 hnil)

theorem isRelative_of_name {dir : Segment} (hdir : IsName dir) (hslash : '/' ∉ dir) :
    IsRelative dir := by
  obtain ⟨c, cs, rfl⟩ := List.exists_cons_of_ne_nil hdir.1
  rw [List.mem_cons, not_or] at hslash
  simpa [IsRelative] using Ne.symm hslash.1

theorem isRelative_inside {dir : Segment} (hdir : IsName dir) (hslash : '/' ∉ dir)
    (path : List Char) : IsRelative (inside dir path) := by
  have h := isRelative_of_name hdir hslash
  unfold inside
  split
  · exact h
  · exact isRelative_append h hdir.1 _

theorem walk_segments_inside {dir : Segment} (hslash : '/' ∉ dir) (path : List Char)
    (rest : List Segment) :
    walk false (segments (inside dir path) ++ rest) =
      walk false (dir :: (segments path ++ rest)) := by
  unfold inside
  split
  · next hpath =>
    rw [hpath, segments, Text.split_of_not_mem hslash]
    exact (walk_append_nil_segment false [dir] rest).symm
  · rw [segments_append_cons, segments, Text.split_of_not_mem hslash]
    rfl

/-- Joining inside a directory that the walk does not leave. -/
theorem join_inside {dir : Segment} (hdir : IsName dir) (hslash : '/' ∉ dir)
    {base tail : List Char} (hbase : IsRelative base) (htail : IsRelative tail)
    (hne : join base tail ≠ []) (hup : (segments (join base tail)).head? ≠ some up) :
    join (inside dir base) tail = inside dir (join base tail) := by
  rw [join_eq hbase htail] at hne hup ⊢
  have hsegs := slash_not_mem_of_mem_segments_append base tail
  have hwalk : up ∉ walk false (segments base ++ segments tail) := by
    intro hmem
    rw [segments_ofSegments_walk hsegs (List.ne_nil_of_mem hmem)] at hup
    exact hup (head?_walk_of_up_mem hmem)
  rw [join_eq (isRelative_inside hdir hslash base) htail, walk_segments_inside hslash,
    walk_cons hdir hwalk, ofSegments_cons dir hne]

end RegistryBlock.Path
