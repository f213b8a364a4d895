import RegistryBlock.Proofs.Path.Normal
import RegistryBlock.Specifier.Target

/-!
# Specifiers that climb out of the project

A specifier may denote a place above the project. No file of the project lies there, and a candidate
that goes on behind the climb is given up at once. The parent of the project itself is not: behind
its two dots the extensions of source files are tried, and `...tsx` is the name of a file.
-/

namespace RegistryBlock

/-- Whether a path leads above the place it starts from. -/
def Path.Climbs (path : String) : Prop :=
  path = ".." ∨ Text.startsWith "../".toList path.toList = true

instance (path : String) : Decidable (Path.Climbs path) :=
  inferInstanceAs (Decidable (_ ∨ _))

theorem Path.IsNormal.not_climbs {path : String} (h : Path.IsNormal path) :
    ¬ Path.Climbs path := by
  have hup : Path.up ∉ Path.segments path.toList := fun hmem => (h.2 _ hmem).2.2 rfl
  rintro (rfl | hfront)
  · exact hup (List.mem_singleton_self Path.up)
  · obtain ⟨rest, hrest⟩ := Text.startsWith_iff.1 hfront
    have hsegments : Path.segments path.toList = Path.up :: Path.segments rest := by
      rw [hrest]
      exact Path.segments_append_cons Path.up rest
    exact hup (hsegments ▸ List.mem_cons_self)

namespace Specifier

/-- Among files with normal paths the parent of the project stands for nothing but files whose name
is an extension behind two dots. -/
theorem find?_variants_up {known : String → Bool}
    (hknown : ∀ path, known path = true → Path.IsNormal path) :
    (variants "..").find? known = (sourceExtensions.map (".." ++ ·)).find? known := by
  have hclimb {path : String} (h : Path.Climbs path) : ¬ known path = true := fun hpath =>
    (hknown path hpath).not_climbs h
  have hextensions : sourceExtensions.map (withExtension "..") =
      sourceExtensions.map (".." ++ ·) := by decide
  have hindex : (indexNames.map (inDirectory "..")).find? known = none := by
    have hall : ∀ path ∈ indexNames.map (inDirectory ".."), Path.Climbs path := by decide
    exact List.find?_eq_none.2 fun path hpath => hclimb (hall path hpath)
  have hup : Path.Climbs ".." := .inl rfl
  rw [variants, hextensions, List.cons_append, List.find?_cons_of_neg (hclimb hup),
    List.find?_append, hindex, Option.or_none]

/-- Whatever leads to a file leads to a known one. A specifier that climbs out of the project leads
to no file with a normal path, unless it denotes the parent itself: then it leads to the first known
file whose name is an extension behind two dots. -/
theorem leads_of_climbs (table : AliasTable) {known : String → Bool}
    (hknown : ∀ path, known path = true → Path.IsNormal path) (importer specifier : String) :
    (∀ path, target? table known importer specifier = some path → known path = true) ∧
      (Path.Climbs (candidate table importer specifier) →
        target? table known importer specifier =
          if candidate table importer specifier = ".." then
            (sourceExtensions.map (".." ++ ·)).find? known
          else none) := by
  refine ⟨fun path => known_of_target?_eq_some, fun hclimbs => ?_⟩
  rw [target?]
  rcases hclimbs with hup | hfront
  · have hguard : ¬ (".." = "" ∨ Text.startsWith "../".toList "..".toList = true) := by decide
    rw [hup, if_neg hguard, if_pos rfl, find?_variants_up hknown]
  · have hup : candidate table importer specifier ≠ ".." := fun hup => by
      rw [hup] at hfront
      exact absurd hfront (by decide)
    rw [if_pos (Or.inr hfront), if_neg hup]

theorem leads_of_climbs_sources :
    let table := AliasTable.ofSettings { sourceRoot := true }
    let known := fun path => decide (path ∈ ["src/main.ts", "...mjs", "...ts"])
    (∀ path, known path = true → Path.IsNormal path) ∧
      candidate table "src/main.ts" "@/../../lib" = "../lib" ∧
      target? table known "src/main.ts" "@/../../lib" = none ∧
      candidate table "src/main.ts" "@/../.." = ".." ∧
      target? table known "src/main.ts" "@/../.." = some "...ts" := by
  intro table known
  have hknown : ∀ path, known path = true → Path.IsNormal path := by
    simp only [known, decide_eq_true_eq]
    decide
  have hlib : candidate table "src/main.ts" "@/../../lib" = "../lib" := by decide +kernel
  have hup : candidate table "src/main.ts" "@/../.." = ".." := by decide +kernel
  have hnone := (leads_of_climbs table hknown "src/main.ts" "@/../../lib").2 (.inr (by
    rw [hlib]
    decide))
  have hsome := (leads_of_climbs table hknown "src/main.ts" "@/../..").2 (.inl hup)
  rw [hlib, if_neg (by decide)] at hnone
  rw [hup, if_pos rfl] at hsome
  exact ⟨hknown, hlib, hnone, hup, hsome.trans (by decide)⟩

/-- The parent of the project leads to a file of the project. -/
theorem leads_of_parent :
    let known := fun path => decide (path = "...tsx")
    (∀ path, known path = true → Path.IsNormal path) ∧ Path.IsNormal "main.ts" ∧
      candidate (.ofSettings {}) "main.ts" ".." = ".." ∧
      target? (.ofSettings {}) known "main.ts" ".." = some "...tsx" := by
  intro known
  refine ⟨fun path hpath => ?_, by decide, by decide +kernel, by decide +kernel⟩
  obtain rfl := of_decide_eq_true hpath
  decide

end Specifier

end RegistryBlock
