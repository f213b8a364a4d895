import RegistryBlock.Path.Location

/-!
# Ancestors

The location itself and every directory above it, up to the root.
-/

namespace RegistryBlock.Location

def ancestorsOf : List String → List Location
  | [] => [.root]
  | name :: above => ⟨(name :: above).reverse⟩ :: ancestorsOf above

/-- The location and those above it, nearest first. -/
def ancestors (loc : Location) : List Location := ancestorsOf loc.names.reverse

theorem mem_ancestorsOf {l : List String} {loc : Location} :
    loc ∈ ancestorsOf l ↔ loc.names.reverse <:+ l := by
  induction l with
  | nil =>
    obtain ⟨names⟩ := loc
    simp [ancestorsOf, root]
  | cons name above ih =>
    obtain ⟨names⟩ := loc
    rw [ancestorsOf, List.mem_cons, ih, List.suffix_cons_iff]
    simp [List.reverse_eq_iff]

theorem mem_ancestors {loc above : Location} :
    above ∈ loc.ancestors ↔ above.names <+: loc.names := by
  rw [ancestors, mem_ancestorsOf, List.reverse_suffix]

end RegistryBlock.Location
