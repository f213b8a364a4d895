import Mathlib.Data.Finset.Card
import Mathlib.Logic.Function.Iterate
import RegistryBlock.Proofs.Reach.Least

/-!
# Rounds of the search

The search can be run in rounds with a queue. A round takes the first file off the queue and follows
its specifiers one by one; a file that is found for the first time goes behind the files found so
far and behind the queue. The files that have left the queue are then the first of the reached
files, in order, so that the queue is empty after as many rounds as there are reached files.
-/

namespace RegistryBlock.ImportMap

/-- A search on its way: the files found so far, in the order in which they were found, and those of
them that still wait for their round. -/
structure Search where
  found : List SourceFile
  pending : List SourceFile

namespace Search

def start (seeds : List SourceFile) : Search := ⟨distinctSeeds seeds, distinctSeeds seeds⟩

def keys (search : Search) : List String := search.found.map SourceFile.key

def enter (search : Search) (files : List SourceFile) : Search :=
  ⟨search.found ++ files, search.pending ++ files⟩

@[simp] theorem found_enter (search : Search) (files : List SourceFile) :
    (search.enter files).found = search.found ++ files := rfl

@[simp] theorem pending_enter (search : Search) (files : List SourceFile) :
    (search.enter files).pending = search.pending ++ files := rfl

@[simp] theorem keys_enter (search : Search) (files : List SourceFile) :
    (search.enter files).keys = search.keys ++ files.map SourceFile.key := List.map_append

theorem enter_enter (search : Search) (files more : List SourceFile) :
    (search.enter files).enter more = search.enter (files ++ more) := by
  simp [enter]

variable (project : ImportMap)

/-- Follows a specifier of a file. Where it leads to a key that is not found yet, the file of this
key is found. -/
def follow (file : SourceFile) (search : Search) (specifier : String) : Search :=
  match project.target? file specifier with
  | none => search
  | some key =>
    if key ∈ search.keys then search
    else search.enter (SourceFile.find? project.files key).toList

/-- A round: the first file of the queue leaves it, and its specifiers are followed. -/
def round (search : Search) : Search :=
  match search.pending with
  | [] => search
  | file :: rest =>
    (Specifier.locals file.content).foldl (follow project file) { search with pending := rest }

/-! ### One round -/

variable {project} {search : Search} {result : List SourceFile} {n : Nat}

/-- Following some specifiers finds the files of the different keys that are new. -/
theorem foldl_follow (file : SourceFile) (specifiers : List String) :
    specifiers.foldl (follow project file) search =
      search.enter ((distinctBy id search.keys
        (specifiers.filterMap (project.target? file))).filterMap
          (SourceFile.find? project.files)) := by
  induction specifiers generalizing search with
  | nil => simp [distinctBy, enter]
  | cons specifier rest ih =>
    rw [List.foldl_cons, ih, follow]
    cases htarget : project.target? file specifier with
    | none => rw [List.filterMap_cons_none htarget]
    | some key =>
      rw [List.filterMap_cons_some htarget, distinctBy]
      dsimp only [id]
      split
      · rfl
      · have hknown := Specifier.known_of_target?_eq_some htarget
        obtain ⟨next, hnext⟩ := Option.isSome_iff_exists.1 hknown
        -- The key of the new file stands behind the others, but only which keys there are counts.
        have hseen : ∀ other, other ∈ (search.enter [next]).keys ↔ other ∈ key :: search.keys := by
          simp [SourceFile.key_of_find?_eq_some hnext, or_comm]
        rw [hnext, Option.toList_some, List.filterMap_cons_some hnext, enter_enter,
          distinctBy_congr_seen id hseen, List.singleton_append]

theorem round_nil (h : search.pending = []) : search.round project = search := by
  rw [round, h]

theorem round_cons {file : SourceFile} {rest : List SourceFile}
    (h : search.pending = file :: rest) :
    search.round project =
      (⟨search.found, rest⟩ : Search).enter (project.newFiles search.keys file) := by
  rw [round, h]
  dsimp only
  rw [foldl_follow, newFiles, newKeys_eq, imports]
  rfl

/-- Whether a search has come to its `n`th round on the way to the given result: before the files of
the queue it has found the first files of the result, and it adds the others. -/
structure IsAt (project : ImportMap) (result : List SourceFile) (n : Nat) (search : Search) :
    Prop where
  found_eq : search.found = result.take n ++ search.pending
  result_eq : result = search.found ++ project.discovered search.keys search.pending

namespace IsAt

theorem drop_eq (h : search.IsAt project result n) :
    result.drop n = search.pending ++ project.discovered search.keys search.pending := by
  have hresult := h.result_eq
  rw [h.found_eq, List.append_assoc] at hresult
  exact List.append_cancel_left ((List.take_append_drop n result).trans hresult)

/-- The file whose turn it is stands first in the queue. -/
theorem head?_pending (h : search.IsAt project result n) :
    search.pending.head? = result[n]? := by
  rw [← List.head?_drop, h.drop_eq]
  cases hpending : search.pending with
  | nil => rw [discovered_nil, List.append_nil]
  | cons file rest => rfl

theorem found_of_pending (h : search.IsAt project result n) (hpending : search.pending = []) :
    search.found = result := by
  have hresult := h.result_eq
  rw [hpending, discovered_nil, List.append_nil] at hresult
  exact hresult.symm

theorem round (h : search.IsAt project result n) :
    (search.round project).IsAt project result (n + 1) := by
  have hnext := h.head?_pending
  cases hpending : search.pending with
  | nil =>
    rw [hpending, List.head?_nil] at hnext
    rw [round_nil hpending]
    refine ⟨?_, h.result_eq⟩
    rw [List.take_add_one, ← hnext, Option.toList_none, List.append_nil]
    exact h.found_eq
  | cons file rest =>
    rw [hpending, List.head?_cons] at hnext
    rw [round_cons hpending]
    refine ⟨?_, ?_⟩
    · rw [found_enter, pending_enter, h.found_eq, hpending, List.take_add_one, ← hnext]
      simp
    · have hresult := h.result_eq
      rw [hpending, discovered_cons] at hresult
      rw [found_enter, pending_enter, keys_enter, map_key_newFiles, List.append_assoc]
      exact hresult

end IsAt

/-! ### All rounds -/

variable (project) (seeds : List SourceFile)

def after (n : Nat) : Search := (round project)^[n] (start seeds)

theorem isAt_after (n : Nat) : (after project seeds n).IsAt project (project.reached seeds) n := by
  induction n with
  | zero => exact ⟨rfl, project.reached_eq seeds⟩
  | succ n ih =>
    rw [after, Function.iterate_succ_apply']
    exact ih.round

end Search

variable (project : ImportMap) (seeds : List SourceFile)

/-- There are no more reached files than keys of seeds and keys of the project. -/
theorem length_reached_le : (project.reached seeds).length ≤
    (seeds.map SourceFile.key).toFinset.card + project.keys.toFinset.card := by
  have hkeys : ((project.reached seeds).map SourceFile.key).toFinset ⊆
      (seeds.map SourceFile.key).toFinset ∪ project.keys.toFinset := by
    intro key hkey
    rw [List.mem_toFinset, reached_eq, List.map_append, List.mem_append] at hkey
    rw [Finset.mem_union, List.mem_toFinset, List.mem_toFinset]
    refine hkey.imp (mem_key_distinctSeeds seeds).1 fun hkey => ?_
    obtain ⟨file, hfile, rfl⟩ := List.mem_map.1 hkey
    refine SourceFile.find?_isSome_iff.1 ?_
    rw [project.find?_key_of_mem_discovered hfile, Option.isSome_some]
  calc (project.reached seeds).length
    _ = ((project.reached seeds).map SourceFile.key).length := (List.length_map _).symm
    _ = ((project.reached seeds).map SourceFile.key).toFinset.card :=
      (List.toFinset_card_of_nodup (project.nodup_key_reached seeds)).symm
    _ ≤ ((seeds.map SourceFile.key).toFinset ∪ project.keys.toFinset).card :=
      Finset.card_le_card hkeys
    _ ≤ _ := Finset.card_union_le _ _

/-- The queue of the search is empty after exactly as many rounds as there are reached files. Each
round takes the next of the reached files off the queue, and in the end these are the files found.
They have different keys, and there are no more of them than there are keys of seeds and of project
files together. -/
theorem rounds_take_reached (settings : AliasSettings) (files seeds : List SourceFile) :
    let project : ImportMap := ⟨files, .ofSettings settings⟩
    let result := project.reached seeds
    (∀ n, (Search.after project seeds n).pending.head? = result[n]?) ∧
      (∀ n, (Search.after project seeds n).pending = [] ↔ result.length ≤ n) ∧
      (Search.after project seeds result.length).found = result ∧
      (result.map SourceFile.key).Nodup ∧
      result.length ≤ (seeds.map SourceFile.key).toFinset.card +
        (files.map SourceFile.key).toFinset.card := by
  intro project result
  have hnext (n : Nat) : (Search.after project seeds n).pending.head? = result[n]? :=
    (Search.isAt_after project seeds n).head?_pending
  have hpending (n : Nat) : (Search.after project seeds n).pending = [] ↔ result.length ≤ n := by
    rw [← List.head?_eq_none_iff, hnext, List.getElem?_eq_none_iff]
  refine ⟨hnext, hpending, ?_, project.nodup_key_reached seeds, project.length_reached_le seeds⟩
  exact (Search.isAt_after project seeds _).found_of_pending ((hpending _).2 (Nat.le_refl _))

end RegistryBlock.ImportMap
