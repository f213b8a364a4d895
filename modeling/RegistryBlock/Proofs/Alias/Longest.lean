import Mathlib.Data.List.Nodup
import RegistryBlock.Proofs.Alias.CatchAll

/-!
# The longest alias wins

The aliases that one specifier uses are fronts of it, so two of them that are equally long are the
same. A table that tries long names first therefore comes to the longest of them before all others,
and it does not matter in which order its entries were given.
-/

namespace RegistryBlock

namespace AliasEntry

/-- What an alias makes of a specifier: alone it stands for its directory, and what goes on behind
it with a slash is joined to the directory. -/
inductive Substitutes (entry : AliasEntry) : String → String → Prop where
  | alone : Substitutes entry entry.name entry.directory
  | behind (rest : List Char) : Substitutes entry (entry.name ++ "/" ++ String.ofList rest)
      (String.ofList (Path.join entry.directory.toList (rest.dropWhile isSlash)))

/-- Whether a specifier is the alias or goes on behind it with a slash. -/
def IsUsedBy (entry : AliasEntry) (specifier : String) : Prop :=
  specifier = entry.name ∨ ∃ rest, specifier = entry.name ++ "/" ++ rest

variable {entry other : AliasEntry} {specifier path : String}

theorem front_eq_of_getLast? (h : entry.name.toList.getLast? ≠ some '/') :
    entry.front = entry.name.toList ++ ['/'] := by
  cases hlast : entry.name.toList.getLast? with
  | none => simp [front, List.getLast?_eq_none_iff.1 hlast, Text.endsWith, Text.startsWith,
      Text.dropFront?]
  | some c =>
    refine front_eq ?_ hlast
    rw [hlast] at h
    simpa [isSlash] using h

theorem substitute?_eq_some_iff (h : entry.name.toList.getLast? ≠ some '/') :
    entry.substitute? specifier = some path ↔ entry.Substitutes specifier path := by
  have hbehind (rest : List Char) :
      specifier.toList = entry.name.toList ++ ['/'] ++ rest ↔
        specifier = entry.name ++ "/" ++ String.ofList rest := by
    simp [← String.toList_inj]
  have hdiffers (rest : String) : entry.name ++ "/" ++ rest ≠ entry.name := by
    simp [← String.toList_inj]
  constructor
  · intro hfound
    unfold substitute? at hfound
    split at hfound
    · next hname =>
      obtain rfl := Option.some.inj hfound
      exact hname ▸ .alone
    · obtain ⟨rest, hrest, rfl⟩ := Option.map_eq_some_iff.1 hfound
      rw [Text.dropFront?_eq_some_iff, front_eq_of_getLast? h, hbehind] at hrest
      exact hrest ▸ .behind rest
  · rintro (_ | rest)
    · exact if_pos rfl
    · rw [substitute?, if_neg (hdiffers _), front_eq_of_getLast? h,
        Text.dropFront?_eq_some_iff.2 ((hbehind rest).2 rfl)]
      rfl

theorem isUsedBy_iff : entry.IsUsedBy specifier ↔ ∃ path, entry.Substitutes specifier path := by
  constructor
  · rintro (rfl | ⟨rest, rfl⟩)
    · exact ⟨_, .alone⟩
    · have hbehind : entry.Substitutes (entry.name ++ "/" ++ String.ofList rest.toList) _ :=
        .behind rest.toList
      rw [String.ofList_toList] at hbehind
      exact ⟨_, hbehind⟩
  · rintro ⟨_, _ | rest⟩
    · exact .inl rfl
    · exact .inr ⟨_, rfl⟩

/-- An alias is a front of every specifier that uses it. -/
theorem IsUsedBy.isPrefix (h : entry.IsUsedBy specifier) :
    entry.name.toList <+: specifier.toList := by
  rcases h with rfl | ⟨rest, rfl⟩
  · exact List.prefix_refl _
  · exact ⟨"/".toList ++ rest.toList, by simp⟩

/-- Two aliases of one length that a specifier uses have the same name. -/
theorem IsUsedBy.name_eq (h : entry.IsUsedBy specifier) (hother : other.IsUsedBy specifier)
    (hlength : entry.name.length = other.name.length) : entry.name = other.name := by
  rw [← String.length_toList, ← String.length_toList] at hlength
  have hfront := List.prefix_of_prefix_length_le h.isPrefix hother.isPrefix hlength.le
  exact String.toList_inj.1 (hfront.eq_of_length hlength)

/-- Whether an alias is longer than all others of a list that the specifier uses. -/
structure IsLongest (entries : List AliasEntry) (specifier : String) (entry : AliasEntry) :
    Prop where
  mem : entry ∈ entries
  isUsedBy : entry.IsUsedBy specifier
  length_lt : ∀ other ∈ entries, other.IsUsedBy specifier → other ≠ entry →
    other.name.length < entry.name.length

variable {entries others : List AliasEntry}

theorem IsLongest.eq (h : IsLongest entries specifier entry)
    (hother : IsLongest entries specifier other) : entry = other := by
  by_contra hne
  have hlt := h.length_lt other hother.mem hother.isUsedBy (Ne.symm hne)
  have hgt := hother.length_lt entry h.mem h.isUsedBy hne
  omega

theorem IsLongest.of_perm (hperm : others.Perm entries) (h : IsLongest entries specifier entry) :
    IsLongest others specifier entry where
  mem := hperm.mem_iff.2 h.mem
  isUsedBy := h.isUsedBy
  length_lt other hother := h.length_lt other (hperm.mem_iff.1 hother)

end AliasEntry

namespace AliasTable

open AliasEntry

/-- Entries with names of their own, none of which ends in a slash. -/
structure AreDistinct (entries : List AliasEntry) : Prop where
  nodup : (entries.map AliasEntry.name).Nodup
  getLast?_ne : ∀ entry ∈ entries, entry.name.toList.getLast? ≠ some '/'

variable {entries others : List AliasEntry} {specifier path : String}

theorem AreDistinct.of_perm (hperm : others.Perm entries) (h : AreDistinct entries) :
    AreDistinct others where
  nodup := (hperm.map AliasEntry.name).nodup_iff.2 h.nodup
  getLast?_ne entry hentry := h.getLast?_ne entry (hperm.mem_iff.1 hentry)

theorem mem_sort {entry : AliasEntry} : entry ∈ sort entries ↔ entry ∈ entries :=
  List.mem_mergeSort

theorem pairwise_sort (entries : List AliasEntry) :
    (sort entries).Pairwise fun a b => b.name.length ≤ a.name.length := by
  refine (List.pairwise_mergeSort (fun a b c hab hbc => ?_) (fun a b => ?_) entries).imp ?_
  · exact decide_eq_true ((of_decide_eq_true hbc).trans (of_decide_eq_true hab))
  · simpa using Nat.le_total b.name.length a.name.length
  · exact fun h => of_decide_eq_true h

/-- The first alias of the table that a specifier uses is the longest one. -/
theorem findSome?_sort_eq_some (h : AreDistinct entries)
    (hfound : (sort entries).findSome? (·.substitute? specifier) = some path) :
    ∃ entry, IsLongest entries specifier entry ∧ entry.Substitutes specifier path := by
  obtain ⟨front, entry, rest, hsplit, hpath, hfront⟩ := List.findSome?_eq_some_iff.1 hfound
  have hmem : entry ∈ entries := mem_sort.1 (by rw [hsplit]; simp)
  have hsubst := (substitute?_eq_some_iff (h.getLast?_ne entry hmem)).1 hpath
  have hused : entry.IsUsedBy specifier := isUsedBy_iff.2 ⟨path, hsubst⟩
  refine ⟨entry, ⟨hmem, hused, fun other hother hother_used hne => ?_⟩, hsubst⟩
  have hrest : other ∈ rest := by
    have hsorted : other ∈ front ++ entry :: rest := hsplit ▸ mem_sort.2 hother
    rcases List.mem_append.1 hsorted with hmem | hmem
    · obtain ⟨found, hfound⟩ := isUsedBy_iff.1 hother_used
      rw [← substitute?_eq_some_iff (h.getLast?_ne other hother), hfront other hmem] at hfound
      cases hfound
    · exact (List.mem_cons.1 hmem).resolve_left hne
  have hle : other.name.length ≤ entry.name.length := by
    have hsorted := pairwise_sort entries
    rw [hsplit, List.pairwise_append, List.pairwise_cons] at hsorted
    exact hsorted.2.1.1 other hrest
  -- Equally long names would be the same name.
  refine lt_of_le_of_ne hle fun hlength => hne ?_
  exact List.inj_on_of_nodup_map h.nodup hother hmem (hother_used.name_eq hused hlength)

theorem findSome?_sort_eq_none_iff (h : AreDistinct entries) :
    (sort entries).findSome? (·.substitute? specifier) = none ↔
      ∀ entry ∈ entries, ¬ entry.IsUsedBy specifier := by
  simp only [List.findSome?_eq_none_iff, mem_sort]
  refine forall₂_congr fun entry hentry => ?_
  rw [Option.eq_none_iff_forall_ne_some, isUsedBy_iff, not_exists]
  exact forall_congr' fun path => not_congr (substitute?_eq_some_iff (h.getLast?_ne entry hentry))

theorem findSome?_sort_eq_of_perm (h : AreDistinct entries) (hperm : others.Perm entries)
    (specifier : String) :
    (sort others).findSome? (·.substitute? specifier) =
      (sort entries).findSome? (·.substitute? specifier) := by
  have hothers := h.of_perm hperm
  cases hfound : (sort others).findSome? (·.substitute? specifier) with
  | none =>
    rw [findSome?_sort_eq_none_iff hothers] at hfound
    exact ((findSome?_sort_eq_none_iff h).2 fun entry hentry =>
      hfound entry (hperm.mem_iff.2 hentry)).symm
  | some path =>
    obtain ⟨entry, hlongest, hpath⟩ := findSome?_sort_eq_some hothers hfound
    have hentry := hlongest.of_perm hperm.symm
    cases hentries : (sort entries).findSome? (·.substitute? specifier) with
    | none =>
      exact absurd hentry.isUsedBy ((findSome?_sort_eq_none_iff h).1 hentries entry hentry.mem)
    | some path' =>
      obtain ⟨other, hother, hpath'⟩ := findSome?_sort_eq_some h hentries
      obtain rfl := hentry.eq hother
      have hslash := h.getLast?_ne entry hentry.mem
      rw [← substitute?_eq_some_iff hslash] at hpath hpath'
      exact hpath.symm.trans hpath'

end AliasTable

namespace Specifier

open AliasTable

/-- Through a table with long names first, a specifier denotes what the longest alias that it uses
makes of it, or what it says below the root if it uses none; and the order in which the entries
were given before does not change where any specifier leads. -/
theorem candidate_of_longest {entries : List AliasEntry} (h : AreDistinct entries)
    (root : String) :
    (∀ importer specifier, isRelative specifier.toList = false →
      (∃ entry, AliasEntry.IsLongest entries specifier entry ∧
        entry.Substitutes specifier (candidate ⟨sort entries, root⟩ importer specifier)) ∨
      (∀ entry ∈ entries, ¬ entry.IsUsedBy specifier) ∧
        candidate ⟨sort entries, root⟩ importer specifier =
          String.ofList (Path.join root.toList (dropMark specifier.toList))) ∧
    ∀ others : List AliasEntry, others.Perm entries → ∀ known importer specifier,
      target? ⟨sort others, root⟩ known importer specifier =
        target? ⟨sort entries, root⟩ known importer specifier := by
  constructor
  · intro importer specifier hrelative
    simp only [candidate, hrelative, Bool.false_eq_true, if_false]
    cases hfound : (sort entries).findSome? (·.substitute? specifier) with
    | none => exact .inr ⟨(findSome?_sort_eq_none_iff h).1 hfound, rfl⟩
    | some path => exact .inl (findSome?_sort_eq_some h hfound)
  · intro others hperm known importer specifier
    have hcandidate : candidate ⟨sort others, root⟩ importer specifier =
        candidate ⟨sort entries, root⟩ importer specifier := by
      simp only [candidate, findSome?_sort_eq_of_perm h hperm]
    simp only [target?, hcandidate]

theorem candidate_of_longest_ui :
    let entries : List AliasEntry :=
      [⟨"@/components/ui", "src/kit"⟩, ⟨"@/components", "src/parts"⟩, ⟨"@", "src"⟩]
    let specifier := "@/components/ui/button"
    let known := fun path => decide (path = "src/kit/button.tsx")
    AreDistinct entries ∧ isRelative specifier.toList = false ∧
      (∃ entry, AliasEntry.IsLongest entries specifier entry ∧
        entry.Substitutes specifier "src/kit/button") ∧
      entries.reverse.Perm entries ∧
      target? ⟨sort entries.reverse, "src"⟩ known "src/app/page.tsx" specifier =
        some "src/kit/button.tsx" := by
  intro entries specifier known
  have hdistinct : AreDistinct entries := ⟨by decide, by decide⟩
  have hrelative : isRelative specifier.toList = false := by decide
  have hsort : sort entries = entries := List.mergeSort_of_pairwise (by decide)
  have hcandidate : candidate ⟨sort entries, "src"⟩ "src/app/page.tsx" specifier =
      "src/kit/button" := by
    rw [hsort]
    decide +kernel
  have htarget : target? ⟨sort entries, "src"⟩ known "src/app/page.tsx" specifier =
      some "src/kit/button.tsx" := by
    rw [hsort]
    decide +kernel
  have hperm : entries.reverse.Perm entries := List.reverse_perm entries
  obtain ⟨hlongest, hany⟩ := candidate_of_longest hdistinct "src"
  refine ⟨hdistinct, hrelative, ?_, hperm, (hany _ hperm _ _ _).trans htarget⟩
  rw [← hcandidate]
  refine (hlongest _ specifier hrelative).resolve_right fun hnone => ?_
  exact hnone.1 ⟨"@/components", "src/parts"⟩ (by decide) (.inr ⟨"ui/button", by decide⟩)

end Specifier

end RegistryBlock
