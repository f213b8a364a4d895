import RegistryBlock.Proofs.Json.Number
import RegistryBlock.Proofs.Json.Steps
import RegistryBlock.Proofs.Json.Text

/-!
# Values are read back

The reader of values takes back what the writer writes, in every layout and at every level. Every
turn of the reader takes at least one character, so the length of the text is depth enough.
-/

namespace RegistryBlock.Json

/-- Values that a text keeps exactly: no floating-point numbers, and no object has a key twice. -/
inductive Value.IsExact : Value → Prop where
  | null : IsExact .null
  | bool (b : Bool) : IsExact (.bool b)
  | int (n : Int) : IsExact (.int n)
  | str (s : String) : IsExact (.str s)
  | arr {items : List Value} (hitems : ∀ v ∈ items, IsExact v) : IsExact (.arr items)
  | obj {members : List (String × Value)} (hkeys : (members.map Prod.fst).Nodup)
      (hmembers : ∀ m ∈ members, IsExact m.2) : IsExact (.obj members)

/-! ### White space between the parts -/

theorem isSpace_iff {c : Char} :
    isSpace c = true ↔ c = ' ' ∨ c = '\t' ∨ c = '\n' ∨ c = '\r' := by
  simp [isSpace, or_assoc]

theorem isSpace_of_isDigit {c : Char} (h : c.isDigit = true) : isSpace c = false := by
  cases hspace : isSpace c with
  | false => rfl
  | true => rcases isSpace_iff.1 hspace with rfl | rfl | rfl | rfl <;> cases h

theorem skipSpace_append {gap rest : List Char} (hgap : ∀ c ∈ gap, isSpace c = true) {c : Char}
    (hhead : rest.head? = some c) (hc : isSpace c = false) : skipSpace (gap ++ rest) = rest :=
  Text.dropWhile_append_eq_right hgap (by simpa [hhead] using hc)

theorem isSpace_of_mem_newline (layout : Layout) (level : Nat) :
    ∀ c ∈ layout.newline level, isSpace c = true := by
  cases layout with
  | line => simp [Layout.newline]
  | lines width =>
    intro c hc
    rcases List.mem_cons.1 hc with rfl | hc
    · rfl
    · rw [List.eq_of_mem_replicate hc]
      rfl

theorem exists_separator_eq (layout : Layout) (level : Nat) :
    ∃ gap, layout.separator level = ',' :: gap ∧ ∀ c ∈ gap, isSpace c = true := by
  cases layout with
  | line => exact ⟨[' '], rfl, List.forall_mem_singleton.2 rfl⟩
  | lines width => exact ⟨_, rfl, isSpace_of_mem_newline (.lines width) level⟩

theorem endsNumber_gap {gap : List Char} (hgap : ∀ c ∈ gap, isSpace c = true) {rest : List Char}
    (hrest : EndsNumber rest) : EndsNumber (gap ++ rest) := by
  cases gap with
  | nil => exact hrest
  | cons c gap =>
    rcases isSpace_iff.1 (hgap c (by simp)) with rfl | rfl | rfl | rfl <;>
      exact endsNumber_cons rfl (by decide) _

/-! ### Parts between brackets -/

section Bracket

variable {parts : List (List Char)} (layout : Layout) (level : Nat) (opening closing : Char)

theorem bracket_append (hparts : parts ≠ []) (rest : List Char) :
    bracket layout level opening closing parts ++ rest =
      opening :: (layout.newline (level + 1) ++ ((layout.separator (level + 1)).intercalate parts ++
        (layout.newline level ++ closing :: rest))) := by
  rw [bracket, if_neg (by simpa using hparts)]
  simp

theorem length_lt_length_bracket (hparts : parts ≠ []) :
    ((layout.separator (level + 1)).intercalate parts).length + 1 <
      (bracket layout level opening closing parts).length := by
  rw [bracket, if_neg (by simpa using hparts)]
  simp only [List.length_append, List.length_cons, List.length_nil]
  omega

end Bracket

theorem head?_intercalate_append {part : List Char} {c : Char} {cs : List Char}
    (hpart : part = c :: cs) (separator : List Char) (parts : List (List Char))
    (rest : List Char) : (separator.intercalate (part :: parts) ++ rest).head? = some c := by
  cases parts with
  | nil => rw [List.intercalate_singleton, hpart]; rfl
  | cons next parts => rw [List.intercalate_cons_cons, hpart]; rfl

/-- A comma and white space stand between a part and the next one. -/
theorem exists_intercalate_cons_cons_eq (layout : Layout) (level : Nat) (part next : List Char)
    (parts : List (List Char)) :
    ∃ gap, (∀ c ∈ gap, isSpace c = true) ∧
      (layout.separator level).intercalate (part :: next :: parts) =
        part ++ ',' :: (gap ++ (layout.separator level).intercalate (next :: parts)) := by
  obtain ⟨gap, hseparator, hgap⟩ := exists_separator_eq layout level
  refine ⟨gap, hgap, ?_⟩
  rw [List.intercalate_cons_cons, hseparator]
  simp

theorem exists_bracket_eq (layout : Layout) (level : Nat) (opening closing : Char)
    (parts : List (List Char)) :
    ∃ cs, bracket layout level opening closing parts = opening :: cs := by
  by_cases hparts : parts = []
  · subst hparts
    exact ⟨[closing], rfl⟩
  · have htext := bracket_append layout level opening closing hparts []
    rw [List.append_nil] at htext
    exact ⟨_, htext⟩

/-- A value begins with a character that no reader passes over. -/
theorem exists_write_eq {v : Value} (h : v.IsExact) (layout : Layout) (level : Nat) :
    ∃ c cs, write layout level v = c :: cs ∧ isSpace c = false ∧ c ≠ ']' ∧ c ≠ '\uFEFF' := by
  cases h with
  | null => exact ⟨'n', _, rfl, by decide⟩
  | bool b => cases b <;> exact ⟨_, _, rfl, by decide⟩
  | int n =>
    obtain ⟨c, cs, hc, hinteger⟩ := exists_integer_eq n
    rcases hinteger with hinteger | hinteger
    · refine ⟨c, cs, hinteger, isSpace_of_isDigit hc, ?_, ?_⟩ <;> rintro rfl <;> cases hc
    · exact ⟨'-', c :: cs, hinteger, by decide⟩
  | str s => exact ⟨'"', _, rfl, by decide⟩
  | arr hitems =>
    obtain ⟨cs, hcs⟩ := exists_bracket_eq layout level '[' ']' _
    exact ⟨'[', cs, hcs, by decide⟩
  | obj hkeys hmembers =>
    obtain ⟨cs, hcs⟩ := exists_bracket_eq layout level '{' '}' _
    exact ⟨'{', cs, hcs, by decide⟩

/-! ### Items and members -/

/-- Whether a value is read back wherever it stands. -/
def IsReadBack (v : Value) : Prop :=
  ∀ layout level depth rest, (write layout level v).length ≤ depth → EndsNumber rest →
    value depth (write layout level v ++ rest) = .ok (v, rest)

theorem elements_writeItems {layout : Layout} {level : Nat} {items : List Value}
    (hitems : items ≠ []) (hexact : ∀ v ∈ items, v.IsExact) (hread : ∀ v ∈ items, IsReadBack v)
    {gap : List Char} (hgap : ∀ c ∈ gap, isSpace c = true) (rest : List Char) {depth : Nat}
    (hdepth :
      ((layout.separator level).intercalate (writeItems layout level items)).length < depth) :
    elements depth ((layout.separator level).intercalate (writeItems layout level items) ++
      (gap ++ ']' :: rest)) = .ok (items, rest) := by
  induction items generalizing depth with
  | nil => exact absurd rfl hitems
  | cons v items ih =>
    obtain ⟨depth, rfl⟩ := Nat.exists_eq_add_one.2 (Nat.zero_lt_of_lt hdepth)
    have hv := hread v (by simp) layout level depth
    cases items with
    | nil =>
      rw [writeItems, writeItems, List.intercalate_singleton] at hdepth ⊢
      refine elements_last (hv _ (by omega) (endsNumber_gap hgap ?_)) ?_
      · exact endsNumber_cons rfl (by decide) _
      · exact skipSpace_append hgap rfl rfl
    | cons w items =>
      obtain ⟨space, hspace, htext⟩ := exists_intercalate_cons_cons_eq layout level
        (write layout level v) (write layout level w) (writeItems layout level items)
      obtain ⟨c, cs, hwrite, hc, -⟩ := exists_write_eq (hexact w (by simp)) layout level
      have hhead := head?_intercalate_append hwrite (layout.separator level)
        (writeItems layout level items) (gap ++ ']' :: rest)
      rw [writeItems, writeItems, htext] at hdepth ⊢
      simp only [List.length_append, List.length_cons] at hdepth
      rw [List.append_assoc, List.cons_append, List.append_assoc]
      refine elements_more (hv _ (by omega) (endsNumber_cons rfl (by decide) _)) rfl ?_
      rw [skipSpace_append hspace hhead hc]
      rw [writeItems] at ih
      exact ih (by simp) (fun u hu => hexact u (List.mem_cons_of_mem _ hu))
        (fun u hu => hread u (List.mem_cons_of_mem _ hu)) (by omega)

theorem put_of_not_mem {α : Type} {members : List (String × α)} {key : String}
    (h : key ∉ members.map Prod.fst) (a : α) : put members key a = members ++ [(key, a)] := by
  induction members with
  | nil => rfl
  | cons m members ih =>
    obtain ⟨name, old⟩ := m
    rw [List.map_cons, List.mem_cons, not_or] at h
    rw [put, if_neg (Ne.symm h.1), ih h.2, List.cons_append]

/-- The text of a member up to its value. -/
theorem string_quote_colon (key : String) (rest : List Char) :
    ∃ cs, quote key ++ [':', ' '] ++ rest = '"' :: cs ∧
      string ('"' :: cs) = .ok (key, ':' :: ' ' :: rest) := by
  have hread := string_quote key (':' :: ' ' :: rest)
  have htext : quote key ++ [':', ' '] ++ rest = quote key ++ ':' :: ' ' :: rest := by simp
  rw [htext]
  rw [quote_append] at hread ⊢
  exact ⟨_, rfl, hread⟩

theorem entries_writeMembers {layout : Layout} {level : Nat}
    {before members : List (String × Value)} (hmembers : members ≠ [])
    (hkeys : ((before ++ members).map Prod.fst).Nodup)
    (hexact : ∀ m ∈ members, m.2.IsExact) (hread : ∀ m ∈ members, IsReadBack m.2)
    {gap : List Char} (hgap : ∀ c ∈ gap, isSpace c = true) (rest : List Char) {depth : Nat}
    (hdepth : ((layout.separator level).intercalate (writeMembers layout level members)).length <
      depth) :
    entries depth before
      ((layout.separator level).intercalate (writeMembers layout level members) ++
        (gap ++ '}' :: rest)) = .ok (before ++ members, rest) := by
  induction members generalizing depth before with
  | nil => exact absurd rfl hmembers
  | cons m members ih =>
    obtain ⟨key, v⟩ := m
    obtain ⟨depth, rfl⟩ := Nat.exists_eq_add_one.2 (Nat.zero_lt_of_lt hdepth)
    have hkey : key ∉ before.map Prod.fst := by
      rw [List.map_append, List.nodup_append] at hkeys
      intro hmem
      exact hkeys.2.2 key hmem key (by simp) rfl
    have hv : IsReadBack v := hread (key, v) (by simp)
    obtain ⟨c, cs, hwrite, hc, -⟩ := exists_write_eq (hexact (key, v) (by simp)) layout level
    have hspace (more : List Char) :
        skipSpace ([' '] ++ (write layout level v ++ more)) = write layout level v ++ more :=
      skipSpace_append (List.forall_mem_singleton.2 rfl) (by rw [hwrite]; rfl) hc
    cases members with
    | nil =>
      rw [writeMembers, writeMembers, List.intercalate_singleton] at hdepth ⊢
      simp only [List.length_append] at hdepth
      obtain ⟨inner, htext, hstring⟩ :=
        string_quote_colon key (write layout level v ++ (gap ++ '}' :: rest))
      rw [List.append_assoc, htext, ← put_of_not_mem hkey]
      refine entries_last hstring rfl ?_ (skipSpace_append hgap rfl rfl)
      refine (congrArg (value depth) (hspace _)).trans (hv layout level depth _ (by omega) ?_)
      exact endsNumber_gap hgap (endsNumber_cons rfl (by decide) _)
    | cons next members =>
      obtain ⟨other, w⟩ := next
      let part := quote key ++ [':', ' '] ++ write layout level v
      let next := quote other ++ [':', ' '] ++ write layout level w
      let parts := writeMembers layout level members
      let tail := (layout.separator level).intercalate (next :: parts) ++ (gap ++ '}' :: rest)
      obtain ⟨space, hblank, htext⟩ :=
        exists_intercalate_cons_cons_eq layout level part next parts
      have hhead : tail.head? = some '"' := head?_intercalate_append rfl _ _ _
      obtain ⟨inner, hinner, hstring⟩ :=
        string_quote_colon key (write layout level v ++ ',' :: (space ++ tail))
      have hrest : part ++ ',' :: (space ++ (layout.separator level).intercalate (next :: parts)) ++
          (gap ++ '}' :: rest) = '"' :: inner := by
        rw [← hinner]
        simp [part, tail]
      rw [writeMembers, writeMembers, htext] at hdepth ⊢
      simp only [part, List.length_append, List.length_cons] at hdepth
      have hshort : ((layout.separator level).intercalate (next :: parts)).length < depth := by
        omega
      have hnext : entries depth (before ++ [(key, v)]) tail =
          .ok (before ++ [(key, v)] ++ (other, w) :: members, rest) :=
        ih (by simp) (by rwa [List.append_assoc, List.singleton_append])
          (fun m hm => hexact m (List.mem_cons_of_mem _ hm))
          (fun m hm => hread m (List.mem_cons_of_mem _ hm)) hshort
      rw [List.append_assoc, List.singleton_append] at hnext
      have hvalue := hv layout level depth (',' :: (space ++ tail)) (by omega)
        (endsNumber_cons rfl (by decide) _)
      rw [← hspace] at hvalue
      rw [hrest]
      refine entries_more hstring rfl hvalue rfl ?_
      rw [put_of_not_mem hkey, skipSpace_append hblank hhead rfl]
      exact hnext

/-! ### Values -/

/-- No text is empty, so there is a turn to take. -/
theorem isReadBack_of_turn {v : Value} (h : v.IsExact)
    (hturn : ∀ layout level depth rest, (write layout level v).length ≤ depth + 1 →
      EndsNumber rest → value (depth + 1) (write layout level v ++ rest) = .ok (v, rest)) :
    IsReadBack v := by
  intro layout level depth rest hdepth hrest
  obtain ⟨c, cs, hwrite, -⟩ := exists_write_eq h layout level
  cases depth with
  | zero =>
    rw [hwrite] at hdepth
    cases hdepth
  | succ depth => exact hturn layout level depth rest hdepth hrest

theorem isReadBack_int (n : Int) : IsReadBack (.int n) := by
  refine isReadBack_of_turn (.int n) fun layout level depth rest _ hrest => ?_
  have hunmarked : IsUnmarked (integer n ++ rest) := by
    obtain ⟨c, cs, hc, hinteger | hinteger⟩ := exists_integer_eq n <;> rw [hinteger]
    · apply isUnmarked_cons
      simp only [List.mem_cons, List.not_mem_nil, or_false, not_or]
      refine ⟨?_, ?_, ?_⟩ <;> rintro rfl <;> cases hc
    · exact isUnmarked_cons (by decide) _
  exact value_number hunmarked (word?_integer n rest) (number_integer n hrest)

theorem isReadBack_str (s : String) : IsReadBack (.str s) := by
  refine isReadBack_of_turn (.str s) fun layout level depth rest _ _ => ?_
  have hread := string_quote s rest
  rw [write]
  rw [quote_append] at hread ⊢
  exact value_string hread

theorem isReadBack_arr {items : List Value} (hexact : ∀ v ∈ items, v.IsExact)
    (hread : ∀ v ∈ items, IsReadBack v) : IsReadBack (.arr items) := by
  refine isReadBack_of_turn (.arr hexact) fun layout level depth rest hdepth _ => ?_
  rw [write] at hdepth ⊢
  cases items with
  | nil => exact value_array_nil rfl
  | cons v items =>
    have hparts : writeItems layout (level + 1) (v :: items) ≠ [] := by simp [writeItems]
    have hlength := length_lt_length_bracket layout level '[' ']' hparts
    obtain ⟨c, cs, hwrite, hc, hclose, -⟩ :=
      exists_write_eq (hexact v (by simp)) layout (level + 1)
    have hread := elements_writeItems (by simp) hexact hread
      (isSpace_of_mem_newline layout level) rest
      (Nat.lt_of_succ_lt_succ (Nat.lt_of_lt_of_le hlength hdepth))
    rw [bracket_append layout level '[' ']' hparts]
    have hhead := head?_intercalate_append hwrite (layout.separator (level + 1))
      (writeItems layout (level + 1) items) (layout.newline level ++ ']' :: rest)
    refine value_array (skipSpace_append (isSpace_of_mem_newline layout _) hhead hc) ?_ hread
    rw [writeItems, hhead]
    simpa using hclose

theorem isReadBack_obj {members : List (String × Value)}
    (hkeys : (members.map Prod.fst).Nodup) (hexact : ∀ m ∈ members, m.2.IsExact)
    (hread : ∀ m ∈ members, IsReadBack m.2) : IsReadBack (.obj members) := by
  refine isReadBack_of_turn (.obj hkeys hexact) fun layout level depth rest hdepth _ => ?_
  rw [write] at hdepth ⊢
  cases members with
  | nil => exact value_object_nil rfl
  | cons m members =>
    have hparts : writeMembers layout (level + 1) (m :: members) ≠ [] := by simp [writeMembers]
    have hlength := length_lt_length_bracket layout level '{' '}' hparts
    have hkeys : (([] ++ m :: members).map Prod.fst).Nodup := hkeys
    have hread := entries_writeMembers (by simp) hkeys hexact hread
      (isSpace_of_mem_newline layout level) rest
      (Nat.lt_of_succ_lt_succ (Nat.lt_of_lt_of_le hlength hdepth))
    rw [bracket_append layout level '{' '}' hparts]
    have hhead : ((layout.separator (level + 1)).intercalate
        (writeMembers layout (level + 1) (m :: members)) ++
          (layout.newline level ++ '}' :: rest)).head? = some '"' := by
      rw [writeMembers]
      exact head?_intercalate_append rfl _ _ _
    refine value_object (skipSpace_append (isSpace_of_mem_newline layout _) hhead rfl) ?_ hread
    rw [hhead]
    decide

theorem isReadBack_of_isExact {v : Value} (h : v.IsExact) : IsReadBack v := by
  induction h with
  | null =>
    exact isReadBack_of_turn .null fun _ _ _ _ _ _ => value_word (isUnmarked_cons (by decide) _) rfl
  | bool b =>
    refine isReadBack_of_turn (.bool b) fun _ _ _ _ _ _ => ?_
    cases b <;> exact value_word (isUnmarked_cons (by decide) _) rfl
  | int n => exact isReadBack_int n
  | str s => exact isReadBack_str s
  | arr hitems ih => exact isReadBack_arr hitems ih
  | obj hkeys hmembers ih => exact isReadBack_obj hkeys hmembers ih

/-- A value that a text keeps exactly is what the reader finds in its text. -/
theorem parse_render {v : Value} (h : v.IsExact) (layout : Layout) :
    parse (v.render layout) = .ok v := by
  obtain ⟨c, cs, hwrite, hc, -, hmark⟩ := exists_write_eq h layout 0
  have hread := isReadBack_of_isExact h layout 0 (cs.length + 2) [] (by rw [hwrite]; simp)
    endsNumber_nil
  rw [List.append_nil, hwrite] at hread
  have hspace : skipSpace (c :: cs) = c :: cs := List.dropWhile_cons_of_neg (by simp [hc])
  have hdocument : document (c :: cs) = .ok v := by
    unfold document
    split
    · next heq => exact absurd (List.cons.inj heq).1 hmark
    · rw [hspace, List.length_cons, hread]
      rfl
  rw [parse, Value.render, String.toList_ofList, hwrite, hdocument]

end RegistryBlock.Json
