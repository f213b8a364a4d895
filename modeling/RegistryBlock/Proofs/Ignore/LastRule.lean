import Mathlib.Data.List.Induction
import RegistryBlock.Ignore.Rule

/-!
# The last rule decides

Going through the rules from the front and overwriting the answer comes to the same as asking the
last rule that applies.
-/

namespace RegistryBlock

/-- Whether some rule applies to a path and the last such rule is not negated. -/
def LeavesOut (rules : List IgnoreRule) (path : List Char) (isDirectory : Bool) : Prop :=
  ∃ earlier rule later, rules = earlier ++ rule :: later ∧
    rule.applies path isDirectory = true ∧ rule.negated = false ∧
    ∀ other ∈ later, other.applies path isDirectory = false

variable {rules : List IgnoreRule} {rule : IgnoreRule} {path : List Char} {isDirectory : Bool}

theorem isIgnored_append_singleton :
    isIgnored (rules ++ [rule]) path isDirectory =
      if rule.applies path isDirectory then !rule.negated
      else isIgnored rules path isDirectory := by
  rw [isIgnored, List.foldl_append]
  rfl

theorem not_leavesOut_nil : ¬ LeavesOut [] path isDirectory := by
  rintro ⟨earlier, rule, later, h, -⟩
  simp at h

/-- The split at some rule is at the last one, or one that the last one comes after. -/
theorem append_singleton_eq_append_cons {earlier later : List IgnoreRule} {chosen : IgnoreRule}
    (h : rules ++ [rule] = earlier ++ chosen :: later) :
    (chosen = rule ∧ later = []) ∨
      ∃ front, rules = earlier ++ chosen :: front ∧ later = front ++ [rule] := by
  rcases List.eq_nil_or_concat later with rfl | ⟨front, last, rfl⟩
  · obtain ⟨-, hlast⟩ := List.append_inj' h rfl
    exact Or.inl ⟨(List.cons.inj hlast).1.symm, rfl⟩
  · rw [List.concat_eq_append, ← List.cons_append, ← List.append_assoc] at h
    obtain ⟨hfront, hlast⟩ := List.append_inj' h rfl
    rw [(List.cons.inj hlast).1, List.concat_eq_append]
    exact Or.inr ⟨front, hfront, rfl⟩

theorem leavesOut_append_of_applies (h : rule.applies path isDirectory = true) :
    LeavesOut (rules ++ [rule]) path isDirectory ↔ rule.negated = false := by
  constructor
  · rintro ⟨earlier, chosen, later, hsplit, -, hnegated, hlater⟩
    rcases append_singleton_eq_append_cons hsplit with ⟨rfl, -⟩ | ⟨front, -, rfl⟩
    · exact hnegated
    · have hrule := hlater rule (by simp)
      rw [h] at hrule
      cases hrule
  · intro hnegated
    exact ⟨rules, rule, [], rfl, h, hnegated, by simp⟩

theorem leavesOut_append_of_not_applies (h : rule.applies path isDirectory = false) :
    LeavesOut (rules ++ [rule]) path isDirectory ↔ LeavesOut rules path isDirectory := by
  constructor
  · rintro ⟨earlier, chosen, later, hsplit, happlies, hnegated, hlater⟩
    rcases append_singleton_eq_append_cons hsplit with ⟨rfl, -⟩ | ⟨front, hrules, rfl⟩
    · rw [h] at happlies
      cases happlies
    · exact ⟨earlier, chosen, front, hrules, happlies, hnegated,
        fun other hother => hlater other (List.mem_append_left _ hother)⟩
  · rintro ⟨earlier, chosen, later, rfl, happlies, hnegated, hlater⟩
    refine ⟨earlier, chosen, later ++ [rule], by simp, happlies, hnegated, ?_⟩
    intro other hother
    rcases List.mem_append.1 hother with hother | hother
    · exact hlater other hother
    · rwa [List.mem_singleton.1 hother]

/-- The answer of the pass over all rules is that of the last rule that applies. -/
theorem isIgnored_iff :
    isIgnored rules path isDirectory = true ↔ LeavesOut rules path isDirectory := by
  induction rules using List.reverseRecOn with
  | nil => simp [isIgnored, not_leavesOut_nil]
  | append_singleton rules rule ih =>
    rw [isIgnored_append_singleton]
    by_cases h : rule.applies path isDirectory = true
    · rw [if_pos h, leavesOut_append_of_applies h, Bool.not_eq_true']
    · rw [if_neg h, ih, leavesOut_append_of_not_applies (by simpa using h)]

/-- Rules have the last word behind all others if none of them that applies is negated. -/
theorem leavesOut_append_of_mem {more : List IgnoreRule}
    (hmore : ∀ other ∈ more, other.applies path isDirectory = true → other.negated = false)
    (hrule : rule ∈ more) (h : rule.applies path isDirectory = true) :
    LeavesOut (rules ++ more) path isDirectory := by
  induction more using List.reverseRecOn with
  | nil => cases hrule
  | append_singleton more last ih =>
    rw [← List.append_assoc]
    by_cases hlast : last.applies path isDirectory = true
    · exact (leavesOut_append_of_applies hlast).2 (hmore last (by simp) hlast)
    · rw [leavesOut_append_of_not_applies (by simpa using hlast)]
      rcases List.mem_append.1 hrule with hrule | hrule
      · exact ih (fun other hother => hmore other (List.mem_append_left _ hother)) hrule
      · rw [List.mem_singleton.1 hrule] at h
        exact absurd h hlast

theorem IgnoreRule.negated_of_ofPattern? {negated : Bool} {cs : List Char}
    (h : ofPattern? negated cs = some rule) : rule.negated = negated := by
  unfold ofPattern? at h
  split at h
  · cases h
  · rw [← Option.some.inj h]

theorem IgnoreRule.mem_ofExcludes {patterns : List String} :
    rule ∈ ofExcludes patterns ↔
      ∃ pattern ∈ patterns, ofPattern? false pattern.toList = some rule := List.mem_filterMap

end RegistryBlock
