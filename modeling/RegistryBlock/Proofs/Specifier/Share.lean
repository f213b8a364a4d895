import RegistryBlock.Proofs.Package.Needed
import RegistryBlock.Proofs.Text.Ends
import RegistryBlock.Reach

/-!
# Where specifiers go

A specifier of a text goes to one place. It is left out if there is nothing in it but white space or
if it names a module of the runtime. Else it is either one of the local specifiers of the text, or
it points into one of the packages of the text. Nothing gets among the local specifiers or the
packages in any other way.
-/

namespace RegistryBlock.Specifier

variable {text specifier : String}

/-- Whether a specifier is blank or names a module of the runtime. -/
def IsLeftOut (specifier : String) : Prop :=
  Text.trimmed specifier = "" ∨ Text.trimmed specifier = "node" ∨
    "node:".toList <+: (Text.trimmed specifier).toList

instance (specifier : String) : Decidable (IsLeftOut specifier) :=
  inferInstanceAs (Decidable (Text.trimmed specifier = "" ∨ Text.trimmed specifier = "node" ∨
    "node:".toList <+: (Text.trimmed specifier).toList))

/-- The places where the specifiers of a text go. -/
inductive Share where
  | nothing
  | project
  | package
deriving DecidableEq, Repr

def Share.Holds (text specifier : String) : Share → Prop
  | nothing => IsLeftOut specifier
  | project => specifier ∈ locals text
  | package => ∃ name, package? specifier = some name ∧ name ≠ "" ∧ name ∈ packages text

def share (specifier : String) : Share :=
  if IsLeftOut specifier then .nothing else if isLocal specifier then .project else .package

/-! ### Specifiers that are left out -/

theorem isLeftOut_iff : IsLeftOut specifier ↔
    Text.trim specifier.toList = [] ∨ isBuiltin (Text.trim specifier.toList) = true := by
  rw [IsLeftOut, isBuiltin, Bool.or_eq_true, decide_eq_true_eq, Text.startsWith_iff_isPrefix,
    ← String.toList_inj, ← String.toList_inj, Text.trimmed, String.toList_ofList,
    String.toList_empty]

theorem isLocal_eq_true_iff : isLocal specifier = true ↔ ¬ IsLeftOut specifier ∧
    ∃ front ∈ localFronts, front <+: Text.trim specifier.toList := by
  simp only [isLocal, Bool.and_eq_true, Bool.not_eq_true', List.isEmpty_eq_false_iff,
    List.any_eq_true, Text.startsWith_iff_isPrefix, isLeftOut_iff, not_or, Bool.not_eq_true]

theorem package?_eq_some_iff {name : String} : package? specifier = some name ↔
    ¬ IsLeftOut specifier ∧ isLocal specifier = false ∧
      name = String.ofList (rootName (Text.trim specifier.toList)) := by
  have hleft : IsLeftOut specifier ↔ ((Text.trim specifier.toList).isEmpty ||
      isBuiltin (Text.trim specifier.toList)) = true := by
    rw [isLeftOut_iff, Bool.or_eq_true, List.isEmpty_iff]
  simp only [hleft, package?]
  split
  · next h =>
    refine iff_of_false (by simp) fun ⟨hleft, hlocal, _⟩ => ?_
    rw [hlocal, Bool.or_false] at h
    exact hleft h
  · next h =>
    rw [Bool.or_eq_true, not_or, Bool.not_eq_true (isLocal specifier)] at h
    rw [and_iff_right h.1, and_iff_right h.2, Option.some.injEq, eq_comm]

/-! ### Names of packages -/

theorem rootName_ne_nil {c : Char} (h : c ≠ '/') (cs : List Char) : rootName (c :: cs) ≠ [] := by
  have hcut : (Text.cutAt '/' (c :: cs)).1 ≠ [] := by
    rw [Text.cutAt, if_neg h]
    exact List.cons_ne_nil _ _
  unfold rootName
  split
  · split
    · exact List.append_ne_nil_of_right_ne_nil _ (List.cons_ne_nil _ _)
    · next hscope =>
      rwa [hscope] at hcut
  · exact hcut

/-- A package has a name. -/
theorem ne_empty_of_package?_eq_some {name : String} (h : package? specifier = some name) :
    name ≠ "" := by
  obtain ⟨hleft, hlocal, rfl⟩ := package?_eq_some_iff.1 h
  have hne : Text.trim specifier.toList ≠ [] := fun hnil => hleft (isLeftOut_iff.2 (.inl hnil))
  obtain ⟨c, cs, hcs⟩ := List.exists_cons_of_ne_nil hne
  have hslash : c ≠ '/' := by
    rintro rfl
    rw [← Bool.not_eq_true, isLocal_eq_true_iff] at hlocal
    exact hlocal ⟨hleft, ['/'], by decide, cs, hcs.symm⟩
  rw [hcs, ne_eq, ← String.toList_eq_nil_iff, String.toList_ofList]
  exact rootName_ne_nil hslash cs

/-! ### Places -/

theorem mem_locals_iff :
    specifier ∈ locals text ↔ specifier ∈ all text ∧ isLocal specifier = true := by
  rw [locals, mem_distinctBy_id, and_iff_left List.not_mem_nil, List.mem_filter]

theorem share_eq_nothing_iff : share specifier = .nothing ↔ IsLeftOut specifier := by
  unfold share
  split
  · next hleft => simp [hleft]
  · next hleft => split <;> simp [hleft]

theorem share_eq_project_iff : share specifier = .project ↔ isLocal specifier = true := by
  unfold share
  split
  · next hleft => simp [isLocal_eq_true_iff, hleft]
  · split <;> simp_all

theorem share_eq_package_iff :
    share specifier = .package ↔ ¬ IsLeftOut specifier ∧ isLocal specifier = false := by
  unfold share
  split
  · next hleft => simp [hleft]
  · split <;> simp_all

/-- A specifier of a text is found in the place where it goes and in no other one. -/
theorem Share.holds_iff (h : specifier ∈ all text) {place : Share} :
    place.Holds text specifier ↔ share specifier = place := by
  cases place with
  | nothing => exact share_eq_nothing_iff.symm
  | project => rw [Holds, mem_locals_iff, and_iff_right h, share_eq_project_iff]
  | package =>
    rw [share_eq_package_iff]
    constructor
    · rintro ⟨name, hname, -⟩
      obtain ⟨hleft, hlocal, -⟩ := package?_eq_some_iff.1 hname
      exact ⟨hleft, hlocal⟩
    · rintro ⟨hleft, hlocal⟩
      have hname := package?_eq_some_iff.2 ⟨hleft, hlocal, rfl⟩
      exact ⟨_, hname, ne_empty_of_package?_eq_some hname,
        mem_packages_iff.2 ⟨specifier, h, hname⟩⟩

/-- Local specifiers stand in the order in which the text has them first. -/
theorem pairwise_idxOf_locals (text : String) :
    (locals text).Pairwise fun specifier other =>
      (all text).idxOf specifier < (all text).idxOf other := by
  -- The guard lets every copy of a local specifier through, so it finds the first one.
  have hfind : ∀ specifier ∈ locals text,
      ((all text).findIdx fun found => Option.guard isLocal found = some specifier) =
        (all text).idxOf specifier := by
    intro specifier hspecifier
    rw [List.idxOf]
    congr 1
    funext found
    rw [Bool.eq_iff_iff, decide_eq_true_eq, Option.guard_eq_some_iff, beq_iff_eq]
    exact and_iff_left_of_imp fun hfound => hfound ▸ (mem_locals_iff.1 hspecifier).2
  have hplaces := pairwise_findIdx_distinctBy (Option.guard isLocal) [] (all text)
  rw [List.filterMap_eq_filter] at hplaces
  refine List.Pairwise.imp_of_mem (fun hspecifier hother hlt => ?_) hplaces
  rwa [hfind _ hspecifier, hfind _ hother] at hlt

/-- Of every specifier of a text exactly one is true: it is left out, it is one of the local
specifiers, or the package that it points into has a name and is one of the packages. The local
specifiers are specifiers of the text, each once and in the order in which they occur first, and
every package comes from a specifier of the text that points into it. -/
theorem share_unique (text : String) :
    (∀ specifier ∈ all text, ∃! place : Share, place.Holds text specifier) ∧
      (∀ specifier ∈ locals text, specifier ∈ all text ∧ isLocal specifier = true) ∧
      (locals text).Nodup ∧
      ((locals text).Pairwise fun specifier other =>
        (all text).idxOf specifier < (all text).idxOf other) ∧
      ∀ name ∈ packages text, ∃ specifier ∈ all text,
        package? specifier = some name ∧ Share.package.Holds text specifier := by
  refine ⟨fun specifier hspecifier => ?_, fun _ => mem_locals_iff.1, nodup_distinctBy_id ..,
    pairwise_idxOf_locals text, fun name hname => ?_⟩
  · exact ⟨share specifier, (Share.holds_iff hspecifier).2 rfl,
      fun place hplace => ((Share.holds_iff hspecifier).1 hplace).symm⟩
  · obtain ⟨specifier, hspecifier, hpackage⟩ := mem_packages_iff.1 hname
    exact ⟨specifier, hspecifier, hpackage, name, hpackage,
      ne_empty_of_package?_eq_some hpackage, hname⟩

theorem share_unique_kit :
    let text := "import ' ./a'\nimport '@acme/kit/a'\nimport 'node:fs'\nimport ' '\nimport ' ./a'"
    all text = [" ./a", "@acme/kit/a", "node:fs", " ", " ./a"] ∧ locals text = [" ./a"] ∧
      packages text = ["@acme/kit"] ∧
      (∃! place : Share, place.Holds text " ./a") ∧
      (∃! place : Share, place.Holds text "@acme/kit/a") ∧
      (∃! place : Share, place.Holds text " ") ∧
      ∃ specifier ∈ all text, package? specifier = some "@acme/kit" := by
  intro text
  have hall : all text = [" ./a", "@acme/kit/a", "node:fs", " ", " ./a"] := by decide +kernel
  have hlocals : locals text = [" ./a"] := by
    rw [locals, hall]
    decide
  have hpackages : packages text = ["@acme/kit"] := by
    rw [packages, hall]
    decide
  obtain ⟨hunique, -, -, -, hfrom⟩ := share_unique text
  obtain ⟨specifier, hspecifier, hpackage, -⟩ := hfrom "@acme/kit" (by simp [hpackages])
  exact ⟨hall, hlocals, hpackages, hunique _ (by simp [hall]), hunique _ (by simp [hall]),
    hunique _ (by simp [hall]), specifier, hspecifier, hpackage⟩

end RegistryBlock.Specifier
