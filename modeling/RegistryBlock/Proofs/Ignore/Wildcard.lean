import Mathlib.Data.List.Forall2
import RegistryBlock.Ignore.Glob
import RegistryBlock.Proofs.Path.Join

/-!
# Patterns of plain characters and wildcards

Without brackets a pattern stands for a text character by character, with `*` for any piece of the
text and `?` for any character. A slash of the pattern stands for a slash of the text, so a segment
of the pattern stands for one or more segments of a path: for more than one if its wildcards take
slashes along, and for exactly one each if the path has no more segments than the pattern.
-/

namespace RegistryBlock.Glob

/-- Whether a pattern stands for a text: `*` for any piece of it, `?` for any character and every
other character for itself. -/
inductive StandsFor : List Char → List Char → Prop where
  | nil : StandsFor [] []
  | star {pattern rest : List Char} (piece : List Char) (h : StandsFor pattern rest) :
      StandsFor ('*' :: pattern) (piece ++ rest)
  | one {pattern rest : List Char} (c : Char) (h : StandsFor pattern rest) :
      StandsFor ('?' :: pattern) (c :: rest)
  | char {c : Char} {pattern rest : List Char} (hstar : c ≠ '*') (hone : c ≠ '?')
      (h : StandsFor pattern rest) : StandsFor (c :: pattern) (c :: rest)

variable {pattern tail cs : List Char} {c : Char}

theorem standsFor_nil : StandsFor [] cs ↔ cs = [] := by
  constructor
  · rintro ⟨⟩
    rfl
  · rintro rfl
    exact .nil

theorem standsFor_star :
    StandsFor ('*' :: pattern) cs ↔ ∃ piece rest, cs = piece ++ rest ∧ StandsFor pattern rest := by
  constructor
  · intro h
    cases h with
    | star piece h => exact ⟨piece, _, rfl, h⟩
    | char hstar => exact absurd rfl hstar
  · rintro ⟨piece, rest, rfl, h⟩
    exact .star piece h

theorem standsFor_one :
    StandsFor ('?' :: pattern) cs ↔ ∃ c rest, cs = c :: rest ∧ StandsFor pattern rest := by
  constructor
  · intro h
    cases h with
    | one c h => exact ⟨c, _, rfl, h⟩
    | char _ hone => exact absurd rfl hone
  · rintro ⟨c, rest, rfl, h⟩
    exact .one c h

theorem standsFor_char (hstar : c ≠ '*') (hone : c ≠ '?') :
    StandsFor (c :: pattern) cs ↔ ∃ rest, cs = c :: rest ∧ StandsFor pattern rest := by
  constructor
  · intro h
    cases h with
    | star => exact absurd rfl hstar
    | one => exact absurd rfl hone
    | char _ _ h => exact ⟨_, rfl, h⟩
  · rintro ⟨rest, rfl, h⟩
    exact .char hstar hone h

/-! ### Matching -/

theorem mem_ends {rest : List Char} : rest ∈ ends cs ↔ ∃ piece, cs = piece ++ rest := by
  induction cs with
  | nil => simp [ends]
  | cons c cs ih =>
    rw [ends, List.mem_cons, ih]
    constructor
    · rintro (rfl | ⟨piece, rfl⟩)
      · exact ⟨[], rfl⟩
      · exact ⟨c :: piece, rfl⟩
    · rintro ⟨piece, hpiece⟩
      cases piece with
      | nil => exact .inl hpiece.symm
      | cons d piece => exact .inr ⟨piece, (List.cons.inj hpiece).2⟩

theorem matchesText_star :
    matchesText ('*' :: pattern) cs = true ↔
      ∃ piece rest, cs = piece ++ rest ∧ matchesText pattern rest = true := by
  rw [matchesText, parse, accepts, List.any_eq_true]
  simp only [mem_ends, matchesText]
  constructor
  · rintro ⟨rest, ⟨piece, hcs⟩, h⟩
    exact ⟨piece, rest, hcs, h⟩
  · rintro ⟨piece, rest, hcs, h⟩
    exact ⟨rest, ⟨piece, hcs⟩, h⟩

theorem matchesText_one :
    matchesText ('?' :: pattern) cs = true ↔
      ∃ c rest, cs = c :: rest ∧ matchesText pattern rest = true := by
  rw [matchesText, parse]
  cases cs with
  | nil => simp [accepts]
  | cons d rest =>
    simp only [accepts, Piece.admits, matchesText, Bool.true_and, List.cons.injEq]
    constructor
    · intro h
      exact ⟨d, rest, ⟨rfl, rfl⟩, h⟩
    · rintro ⟨_, _, ⟨rfl, rfl⟩, h⟩
      exact h

theorem matchesText_char (hstar : c ≠ '*') (hone : c ≠ '?') (hset : c ≠ '[') :
    matchesText (c :: pattern) cs = true ↔
      ∃ rest, cs = c :: rest ∧ matchesText pattern rest = true := by
  have hparse : parse (c :: pattern) = .char c :: parse pattern := by
    rw [parse] <;> simp_all
  rw [matchesText, hparse]
  cases cs with
  | nil => simp [accepts]
  | cons d rest =>
    simp only [accepts, Piece.admits, matchesText, Bool.and_eq_true, decide_eq_true_eq,
      List.cons.injEq]
    constructor
    · rintro ⟨hd, h⟩
      exact ⟨rest, ⟨hd, rfl⟩, h⟩
    · rintro ⟨_, ⟨hd, rfl⟩, h⟩
      exact ⟨hd, h⟩

/-- A pattern without brackets matches exactly what it stands for. -/
theorem matchesText_iff_standsFor (h : '[' ∉ pattern) :
    matchesText pattern cs = true ↔ StandsFor pattern cs := by
  induction pattern generalizing cs with
  | nil => rw [standsFor_nil, matchesText, parse, accepts, List.isEmpty_iff]
  | cons c pattern ih =>
    rw [List.mem_cons, not_or] at h
    have ih := fun rest => @ih rest h.2
    by_cases hstar : c = '*'
    · rw [hstar, matchesText_star, standsFor_star]
      simp only [ih]
    by_cases hone : c = '?'
    · rw [hone, matchesText_one, standsFor_one]
      simp only [ih]
    · rw [matchesText_char hstar hone (Ne.symm h.1), standsFor_char hstar hone]
      simp only [ih]

/-! ### Slashes -/

/-- The two parts of a pattern stand for two parts of the text. -/
theorem standsFor_append :
    StandsFor (pattern ++ tail) cs ↔
      ∃ front back, cs = front ++ back ∧ StandsFor pattern front ∧ StandsFor tail back := by
  constructor
  · intro h
    induction pattern generalizing cs with
    | nil => exact ⟨[], cs, rfl, .nil, h⟩
    | cons c pattern ih =>
      rw [List.cons_append] at h
      cases h with
      | star piece h =>
        obtain ⟨front, back, rfl, hfront, hback⟩ := ih h
        exact ⟨piece ++ front, back, (List.append_assoc ..).symm, .star piece hfront, hback⟩
      | one d h =>
        obtain ⟨front, back, rfl, hfront, hback⟩ := ih h
        exact ⟨d :: front, back, rfl, .one d hfront, hback⟩
      | char hstar hone h =>
        obtain ⟨front, back, rfl, hfront, hback⟩ := ih h
        exact ⟨c :: front, back, rfl, .char hstar hone hfront, hback⟩
  · rintro ⟨front, back, rfl, hfront, hback⟩
    induction hfront with
    | nil => exact hback
    | star piece _ ih =>
      rw [List.append_assoc]
      exact .star piece ih
    | one d _ ih => exact .one d ih
    | char hstar hone _ ih => exact .char hstar hone ih

/-- A slash of the pattern stands for a slash of the text. -/
theorem standsFor_append_slash :
    StandsFor (pattern ++ '/' :: tail) cs ↔
      ∃ front back, cs = front ++ '/' :: back ∧ StandsFor pattern front ∧ StandsFor tail back := by
  have hstar : '/' ≠ '*' := by decide
  have hone : '/' ≠ '?' := by decide
  simp only [standsFor_append, standsFor_char hstar hone]
  constructor
  · rintro ⟨front, _, rfl, hfront, back, rfl, hback⟩
    exact ⟨front, back, rfl, hfront, hback⟩
  · rintro ⟨front, back, rfl, hfront, hback⟩
    exact ⟨front, _, rfl, hfront, back, rfl, hback⟩

/-! ### Segments -/

open RegistryBlock.Path

/-- Whether the segments of a path fall into groups, one behind the other, such that each segment
of the pattern stands for one group with its slashes. -/
inductive Covers : List Segment → List Segment → Prop where
  | nil : Covers [] []
  | cons {pattern : Segment} {patterns group segs : List Segment} (hne : group ≠ [])
      (h : StandsFor pattern (ofSegments group)) (hrest : Covers patterns segs) :
      Covers (pattern :: patterns) (group ++ segs)

variable {patterns segs : List Segment}

/-- Segment by segment is a way to cover a path. -/
theorem covers_of_forall₂ (h : List.Forall₂ StandsFor patterns segs) : Covers patterns segs := by
  induction h with
  | nil => exact .nil
  | @cons pattern seg patterns segs hseg _ ih =>
    exact Covers.cons (List.cons_ne_nil seg []) hseg ih

theorem Covers.length_le (h : Covers patterns segs) : patterns.length ≤ segs.length := by
  induction h with
  | nil => exact Nat.le_refl 0
  | cons hne _ _ ih =>
    have hgroup := List.length_pos_iff.2 hne
    rw [List.length_cons, List.length_append]
    omega

/-- A path with no more segments than the pattern is covered segment by segment. -/
theorem Covers.forall₂ (h : Covers patterns segs) (hle : segs.length ≤ patterns.length) :
    List.Forall₂ StandsFor patterns segs := by
  induction h with
  | nil => exact .nil
  | @cons pattern patterns group segs hne hgroup hrest ih =>
    have hlength := hrest.length_le
    obtain ⟨seg, group, rfl⟩ := List.exists_cons_of_ne_nil hne
    rw [List.length_append, List.length_cons, List.length_cons] at hle
    obtain rfl : group = [] := List.length_eq_zero_iff.1 (by omega)
    exact .cons hgroup (ih (by omega))

theorem Covers.ne_nil (h : Covers patterns segs) (hne : patterns ≠ []) : segs ≠ [] := by
  intro hsegs
  have hlength := h.length_le
  rw [hsegs, List.length_nil, Nat.le_zero, List.length_eq_zero_iff] at hlength
  exact hne hlength

theorem covers_cons {pattern : Segment} :
    Covers (pattern :: patterns) segs ↔ ∃ group rest, segs = group ++ rest ∧ group ≠ [] ∧
      StandsFor pattern (ofSegments group) ∧ Covers patterns rest := by
  constructor
  · intro h
    cases h with
    | cons hne hgroup hrest => exact ⟨_, _, rfl, hne, hgroup, hrest⟩
  · rintro ⟨group, rest, rfl, hne, hgroup, hrest⟩
    exact .cons hne hgroup hrest

theorem covers_singleton {pattern : Segment} (hne : segs ≠ []) :
    Covers [pattern] segs ↔ StandsFor pattern (ofSegments segs) := by
  rw [covers_cons]
  constructor
  · rintro ⟨group, rest, rfl, -, hgroup, hrest⟩
    cases hrest
    rwa [List.append_nil]
  · intro h
    exact ⟨segs, [], (List.append_nil segs).symm, hne, h, .nil⟩

/-- A row of segments stands for a path if it covers the segments of the path. -/
theorem standsFor_ofSegments_iff (hne : patterns ≠ []) :
    StandsFor (ofSegments patterns) cs ↔ Covers patterns (segments cs) := by
  induction patterns generalizing cs with
  | nil => exact absurd rfl hne
  | cons pattern patterns ih =>
    by_cases hpatterns : patterns = []
    · rw [hpatterns, covers_singleton (segments_ne_nil cs), ofSegments_segments]
      rfl
    rw [ofSegments, Text.join_cons pattern hpatterns, ← ofSegments, standsFor_append_slash,
      covers_cons]
    constructor
    · rintro ⟨front, back, rfl, hfront, hback⟩
      refine ⟨segments front, segments back, segments_append_cons front back,
        segments_ne_nil front, ?_, (ih hpatterns).1 hback⟩
      rwa [ofSegments_segments]
    · rintro ⟨group, rest, hsegs, hgroup, hfront, hrest⟩
      obtain ⟨front, back, rfl, rfl, rfl⟩ :=
        (segments_eq_append_iff hgroup (hrest.ne_nil hpatterns)).1 hsegs
      rw [ofSegments_segments] at hfront
      exact ⟨front, back, rfl, hfront, (ih hpatterns).2 hrest⟩

end RegistryBlock.Glob
