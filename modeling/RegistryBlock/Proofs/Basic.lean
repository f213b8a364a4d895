import RegistryBlock.Json.Basic

/-!
# Tables and steps

Lists of pairs as tables, and chains of steps that may fail.
-/

namespace RegistryBlock

theorem lookup_cons_eq_ite {α β : Type} [BEq β] [LawfulBEq β] [DecidableEq β] (name other : β)
    (a : α) (entries : List (β × α)) : ((name, a) :: entries).lookup other =
      if other = name then some a else entries.lookup other := by
  by_cases h : other = name
  · rw [if_pos h, h, List.lookup_cons_self]
  · have hbeq : (other == name) = false := beq_false_of_ne h
    rw [if_neg h, List.lookup_cons, hbeq]

namespace Json

variable {α : Type}

theorem lookup_put (members : List (String × α)) (key : String) (a : α) (name : String) :
    (put members key a).lookup name = if name = key then some a else members.lookup name := by
  induction members with
  | nil => rw [put, lookup_cons_eq_ite]
  | cons m members ih =>
    obtain ⟨first, old⟩ := m
    rw [put]
    by_cases hfirst : first = key
    · rw [if_pos hfirst, lookup_cons_eq_ite, lookup_cons_eq_ite, hfirst]
      split <;> rfl
    · rw [if_neg hfirst, lookup_cons_eq_ite, lookup_cons_eq_ite, ih]
      by_cases h : name = first
      · rw [if_pos h, if_neg (by rwa [h]), if_pos h]
      · rw [if_neg h, if_neg h]

theorem mem_of_mem_put {members : List (String × α)} {key : String} {a : α} {m : String × α}
    (h : m ∈ put members key a) : m ∈ members ∨ m = (key, a) := by
  induction members with
  | nil => exact Or.inr (List.mem_singleton.1 h)
  | cons first members ih =>
    obtain ⟨k, old⟩ := first
    rw [put] at h
    split at h
    · next hk =>
      rcases List.mem_cons.1 h with rfl | h
      · exact Or.inr (by rw [hk])
      · exact Or.inl (List.mem_cons_of_mem _ h)
    · rcases List.mem_cons.1 h with rfl | h
      · exact Or.inl List.mem_cons_self
      · exact (ih h).imp_left (List.mem_cons_of_mem _)

end Json

theorem exists_eq_ok_of_isOk {ε α : Type} {result : Except ε α} (h : result.isOk = true) :
    ∃ a, result = .ok a := by
  cases result with
  | error e => cases h
  | ok a => exact ⟨a, rfl⟩

theorem bind_eq_ok_iff {ε α β : Type} {start : Except ε α} {next : α → Except ε β} {b : β} :
    start >>= next = .ok b ↔ ∃ a, start = .ok a ∧ next a = .ok b := by
  constructor
  · intro h
    cases start with
    | error e => cases h
    | ok a => exact ⟨a, rfl, h⟩
  · rintro ⟨a, rfl, h⟩
    exact h

theorem bind_eq_error_iff {ε α β : Type} {start : Except ε α} {next : α → Except ε β} {e : ε} :
    start >>= next = .error e ↔ start = .error e ∨ ∃ a, start = .ok a ∧ next a = .error e := by
  cases start with
  | error other =>
    have hbind : (Except.error other : Except ε α) >>= next = .error other := rfl
    simp [hbind]
  | ok a =>
    have hbind : (Except.ok a : Except ε α) >>= next = next a := rfl
    simp [hbind]

theorem map_eq_error_iff {ε α β : Type} {f : α → β} {result : Except ε α} {e : ε} :
    result.map f = .error e ↔ result = .error e := by
  cases result <;> simp [Except.map]

theorem mapError_eq_ok_iff {ε δ α : Type} {f : ε → δ} {result : Except ε α} {a : α} :
    result.mapError f = .ok a ↔ result = .ok a := by
  cases result with
  | error e => constructor <;> rintro ⟨⟩
  | ok b => exact ⟨fun h => congrArg Except.ok (Except.ok.inj h), fun h => h ▸ rfl⟩

end RegistryBlock
