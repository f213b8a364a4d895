import RegistryBlock.Proofs.Json.RoundTrip

/-!
# What stands in a written text

Every string of a value stands in the text of the value between marks, so it is shorter than the
text. Carriage returns are written as escapes, so a text has none.
-/

namespace RegistryBlock.Json

/-- Whether a string stands somewhere in a value, keys aside. -/
inductive Value.Has (s : String) : Value → Prop where
  | str : Has s (.str s)
  | item {items : List Value} {v : Value} (hv : v ∈ items) (h : Has s v) : Has s (.arr items)
  | member {members : List (String × Value)} {m : String × Value} (hm : m ∈ members)
      (h : Has s m.2) : Has s (.obj members)

/-! ### Lengths -/

theorem length_le_length_intercalate {part : List Char} {parts : List (List Char)}
    (h : part ∈ parts) (separator : List Char) :
    part.length ≤ (separator.intercalate parts).length := by
  induction parts with
  | nil => cases h
  | cons first parts ih =>
    cases parts with
    | nil =>
      exact Nat.le_of_eq (by rw [List.mem_singleton.1 h, List.intercalate_singleton])
    | cons next parts =>
      rw [List.intercalate_cons_cons, List.length_append, List.length_append]
      rcases List.mem_cons.1 h with rfl | h
      · omega
      · have hrest := ih h
        omega

theorem length_lt_length_bracket_of_mem {part : List Char} {parts : List (List Char)}
    (h : part ∈ parts) (layout : Layout) (level : Nat) (opening closing : Char) :
    part.length < (bracket layout level opening closing parts).length := by
  have hparts := length_lt_length_bracket layout level opening closing (List.ne_nil_of_mem h)
  have hpart := length_le_length_intercalate h (layout.separator (level + 1))
  omega

theorem write_mem_writeItems {v : Value} {items : List Value} (h : v ∈ items) (layout : Layout)
    (level : Nat) : write layout level v ∈ writeItems layout level items := by
  induction items with
  | nil => cases h
  | cons first items ih =>
    rw [writeItems]
    rcases List.mem_cons.1 h with rfl | h
    · exact List.mem_cons_self
    · exact List.mem_cons_of_mem _ (ih h)

theorem member_mem_writeMembers {m : String × Value} {members : List (String × Value)}
    (h : m ∈ members) (layout : Layout) (level : Nat) :
    quote m.1 ++ [':', ' '] ++ write layout level m.2 ∈ writeMembers layout level members := by
  induction members with
  | nil => cases h
  | cons first members ih =>
    rw [writeMembers]
    rcases List.mem_cons.1 h with rfl | h
    · exact List.mem_cons_self
    · exact List.mem_cons_of_mem _ (ih h)

/-- A string is shorter than the text of a value that has it. -/
theorem length_lt_length_write {s : String} {v : Value} (h : v.Has s) (layout : Layout)
    (level : Nat) : s.length < (write layout level v).length := by
  induction h generalizing level with
  | str =>
    have hescaped := length_le_length_escaped s.toList
    have hquote := congrArg List.length (quote_append s [])
    simp only [List.length_append, List.length_cons, List.length_nil] at hquote
    rw [write, ← String.length_toList]
    omega
  | item hv _ ih =>
    rw [write]
    exact Nat.lt_trans (ih (level + 1))
      (length_lt_length_bracket_of_mem (write_mem_writeItems hv layout (level + 1)) ..)
  | member hm _ ih =>
    have hvalue := ih (level + 1)
    have hmember := length_lt_length_bracket_of_mem
      (member_mem_writeMembers hm layout (level + 1)) layout level '{' '}'
    rw [List.length_append] at hmember
    rw [write]
    omega

/-! ### Carriage returns -/

theorem return_not_mem_escapeChar (c : Char) : '\r' ∉ escapeChar c := by
  have hhex : ∀ n < 0x20, '\r' ∉ Text.hexDigits 4 n := by decide
  unfold escapeChar
  repeat' split
  all_goals simp_all [eq_comm]

theorem return_not_mem_quote (s : String) : '\r' ∉ quote s := by
  simp [quote, return_not_mem_escapeChar]

theorem return_not_mem_newline (layout : Layout) (level : Nat) : '\r' ∉ layout.newline level := by
  cases layout <;> simp [Layout.newline]

theorem return_not_mem_intercalate {separator : List Char} {parts : List (List Char)}
    (hseparator : '\r' ∉ separator) (hparts : ∀ part ∈ parts, '\r' ∉ part) :
    '\r' ∉ separator.intercalate parts := by
  induction parts with
  | nil => simp
  | cons part parts ih =>
    rw [List.forall_mem_cons] at hparts
    cases parts with
    | nil => simpa using hparts.1
    | cons next parts =>
      rw [List.intercalate_cons_cons]
      simp [hparts.1, hseparator, ih hparts.2]

theorem return_not_mem_bracket {parts : List (List Char)} (h : ∀ part ∈ parts, '\r' ∉ part)
    (layout : Layout) (level : Nat) {opening closing : Char} (hopening : '\r' ≠ opening)
    (hclosing : '\r' ≠ closing) : '\r' ∉ bracket layout level opening closing parts := by
  have hseparator : '\r' ∉ layout.separator (level + 1) := by
    cases layout <;> simp [Layout.separator, return_not_mem_newline]
  have hinner := return_not_mem_intercalate hseparator h
  unfold bracket
  split <;> simp [hopening, hclosing, return_not_mem_newline, hinner]

theorem return_not_mem_writeItems {layout : Layout} {level : Nat} {items : List Value}
    (h : ∀ v ∈ items, '\r' ∉ write layout level v) :
    ∀ part ∈ writeItems layout level items, '\r' ∉ part := by
  induction items with
  | nil => simp [writeItems]
  | cons v items ih =>
    rw [List.forall_mem_cons] at h
    rw [writeItems, List.forall_mem_cons]
    exact ⟨h.1, ih h.2⟩

theorem return_not_mem_writeMembers {layout : Layout} {level : Nat}
    {members : List (String × Value)} (h : ∀ m ∈ members, '\r' ∉ write layout level m.2) :
    ∀ part ∈ writeMembers layout level members, '\r' ∉ part := by
  induction members with
  | nil => simp [writeMembers]
  | cons m members ih =>
    rw [List.forall_mem_cons] at h
    rw [writeMembers, List.forall_mem_cons]
    refine ⟨?_, ih h.2⟩
    simp [return_not_mem_quote, h.1]

theorem return_not_mem_write {v : Value} (h : v.IsExact) (layout : Layout) (level : Nat) :
    '\r' ∉ write layout level v := by
  induction h generalizing level with
  | null => simp [write]
  | bool b => cases b <;> simp [write]
  | int n =>
    have hdigits : '\r' ∉ Decimal.digitChars n.natAbs := fun h => by
      cases isDigit_of_mem_digitChars h
    rw [write, integer]
    split <;> simp [hdigits]
  | str s => exact return_not_mem_quote s
  | arr hitems ih =>
    rw [write]
    exact return_not_mem_bracket (return_not_mem_writeItems fun v hv => ih v hv _) _ _
      (by decide) (by decide)
  | obj hkeys hmembers ih =>
    rw [write]
    exact return_not_mem_bracket (return_not_mem_writeMembers fun m hm => ih m hm _) _ _
      (by decide) (by decide)

end RegistryBlock.Json
