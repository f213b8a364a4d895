import RegistryBlock.Proofs.Specifier.Reading

/-!
# Reading clauses

What an import statement binds can be names that are words of the language as well. The readers try
the word first: a name `type` is taken for the word, a missing clause for a name `from`. Either way
the literal behind the clause is found.
-/

namespace RegistryBlock.Specifier

/-! ### Clauses -/

theorem exists_head_binding (binding : Binding) (rest : List Char) :
    ∃ c, (binding.chars ++ rest).head? = some c ∧ (c = '{' ∨ c = '*') := by
  cases binding with
  | braces list after => exact ⟨'{', rfl, Or.inl rfl⟩
  | star before gap name after => exact ⟨'*', rfl, Or.inr rfl⟩

theorem space_append_binding (blanks : Blanks) (binding : Binding) (rest : List Char) :
    space (blanks.chars ++ (binding.chars ++ rest)) = binding.chars ++ rest := by
  obtain ⟨c, hhead, rfl | rfl⟩ := exists_head_binding binding rest <;>
    exact space_append blanks hhead (by decide)

theorem clause?_of_name {cs name tail : List Char} (h : name? cs = some (name, tail)) :
    clause? cs = (afterName? moreBindings? name tail <|> bindings? cs) := by
  rw [clause?, h]
  rfl

/-- Without a clause the word `from` is taken for a name first, and given back when nothing but a
literal follows. -/
theorem clause?_reads_source (source : Source) :
    Reads clause? source.chars source.specifier := by
  intro rest
  let word : Name := ⟨"from".toList, by decide, List.all_eq_true.1 (by decide)⟩
  let tail := source.before.chars ++ (source.literal.chars ++ rest)
  have hquote := source.literal.isQuote_opening
  have hname : name? (source.chars ++ rest) = some (word.chars, tail) := by
    have hliteral : (source.literal.chars ++ rest).head? = some source.literal.opening := rfl
    obtain ⟨c, hhead, hc⟩ :=
      exists_head_blanks source.before hliteral (isNameChar_of_isQuote hquote)
    rw [Source.chars, word_append, List.append_assoc]
    exact name?_append word hhead hc
  have hmore : moreBindings? (source.literal.chars ++ rest) = none := by
    rw [Literal.chars, List.cons_append]
    rcases isQuote_iff.1 hquote with h | h <;> rw [h] <;> rfl
  have hafter : afterName? moreBindings? word.chars tail = none := by
    rw [afterName?, space_append_literal, hmore]
    exact if_neg (by decide)
  rw [clause?_of_name hname, hafter]
  exact bindings?_reads_source source rest

theorem moreBindings?_reads_comma (after : Blanks) (binding : Binding) (source : Source) :
    Reads moreBindings? (',' :: (after.chars ++ (binding.chars ++ source.chars)))
      source.specifier := by
  intro rest
  have hread := bindings?_reads binding source rest
  rw [List.append_assoc] at hread
  rw [List.cons_append, List.append_assoc, List.append_assoc, moreBindings?,
    space_append_binding]
  exact hread

theorem clause?_reads (clause : Clause) (source : Source) :
    Reads clause? (clause.chars ++ source.chars) source.specifier := by
  intro rest
  cases clause with
  | default name after =>
    obtain ⟨c, hhead, hblank⟩ := exists_head_gap after (source.chars ++ rest)
    have hafter : afterName? moreBindings? name.chars (after.chars ++ (source.chars ++ rest)) =
        some (source.specifier, rest) := by
      apply afterName?_of_eq_some
      rw [space_append_source]
      exact bindings?_reads_source source rest
    rw [Clause.chars, List.append_assoc, List.append_assoc,
      clause?_of_name (name?_append name hhead (isNameChar_of_isBlank hblank)), hafter]
    rfl
  | bindings binding =>
    have hname : name? (binding.chars ++ source.chars ++ rest) = none := by
      rw [List.append_assoc]
      obtain ⟨c, hhead, rfl | rfl⟩ := exists_head_binding binding (source.chars ++ rest) <;>
        exact name?_eq_none hhead (by decide)
    rw [Clause.chars, clause?, hname]
    exact bindings?_reads binding source rest
  | both name before after binding =>
    let tail := ',' :: (after.chars ++ (binding.chars ++ source.chars)) ++ rest
    have htail : tail.head? = some ',' := rfl
    obtain ⟨c, hhead, hc⟩ := exists_head_blanks before htail (by decide)
    have hafter : afterName? moreBindings? name.chars (before.chars ++ tail) =
        some (source.specifier, rest) := by
      apply afterName?_of_eq_some
      rw [space_append before rfl (by decide)]
      exact moreBindings?_reads_comma after binding source rest
    have htext : (Clause.both name before after binding).chars ++ source.chars ++ rest =
        name.chars ++ (before.chars ++ tail) := by
      simp [Clause.chars, tail]
    rw [htext, clause?_of_name (name?_append name hhead hc), hafter]
    rfl

/-! ### The word `type` -/

theorem clause?_eq_none {c : Char} (hc : c ∈ ['"', '\'', '(', ',']) (rest : List Char) :
    clause? (c :: rest) = none := by
  simp only [List.mem_cons, List.not_mem_nil, or_false] at hc
  rcases hc with rfl | rfl | rfl | rfl <;> rfl

/-- A name that begins like the word `type` either is this word or goes on behind it. -/
theorem eq_or_exists_of_name_append_eq {name : Name} {tail rest : List Char} {c : Char}
    (hhead : tail.head? = some c) (hc : isNameChar c = false)
    (h : name.chars ++ tail = word "type" rest) :
    rest = tail ∨ ∃ d more, rest = d :: more ∧ isNameChar d = true := by
  have htype : ∀ d ∈ "type".toList, isNameChar d = true := List.all_eq_true.1 (by decide)
  rcases List.append_eq_append_iff.1 h with ⟨more, hword, htail⟩ | ⟨more, hname, hrest⟩
  · cases more with
    | nil => exact Or.inl htail.symm
    | cons d more =>
      rw [htail] at hhead
      obtain rfl := Option.some.inj hhead
      rw [htype d (by rw [hword]; simp)] at hc
      cases hc
  · cases more with
    | nil => exact Or.inl hrest
    | cons d more =>
      exact Or.inr ⟨d, more ++ tail, hrest, name.isNameChar d (by rw [hname]; simp)⟩

theorem typed?_of_eq_some {next : List Char → Option (String × List Char)} {cs : List Char}
    {found : String × List Char} (h : next cs = some found)
    (htype : ∀ rest inner, cs = word "type" rest → space? rest = some inner →
      next inner = none ∨ next inner = some found) : typed? next cs = some found := by
  rw [typed?, h]
  cases hword : word? "type" cs with
  | none => rfl
  | some rest =>
    cases hspace : space? rest with
    | none => rw [Option.bind_some, hspace]; rfl
    | some inner =>
      rw [Option.bind_some, hspace, Option.bind_some]
      rcases htype rest inner (Text.dropFront?_eq_some_iff.1 hword) hspace with hnext | hnext <;>
        rw [hnext] <;> rfl

theorem typed?_of_head {next : List Char → Option (String × List Char)} {cs : List Char}
    {found : String × List Char} {c : Char} (hhead : cs.head? = some c) (hc : c ≠ 't')
    (h : next cs = some found) : typed? next cs = some found := by
  apply typed?_of_eq_some h
  rintro rest inner rfl -
  exact absurd (Option.some.inj hhead).symm hc

/-- A name `type` is taken for the word first. What follows it is no clause then, or the same
specifier is found. -/
theorem typed?_clause?_reads (clause : Clause) (source : Source) :
    Reads (typed? clause?) (clause.chars ++ source.chars) source.specifier := by
  intro rest
  apply typed?_of_eq_some (clause?_reads clause source rest)
  intro after inner htext hspace
  rw [List.append_assoc] at htext
  cases clause with
  | default name gap =>
    rw [Clause.chars, List.append_assoc] at htext
    obtain ⟨c, hhead, hblank⟩ := exists_head_gap gap (source.chars ++ rest)
    rcases eq_or_exists_of_name_append_eq hhead (isNameChar_of_isBlank hblank) htext with
      rfl | ⟨d, more, rfl, hd⟩
    · rw [eq_of_space?_append rfl (by decide) hspace]
      exact Or.inr (clause?_reads_source source rest)
    · rw [space?_eq_none (isBlank_of_isNameChar hd)] at hspace
      cases hspace
  | bindings binding =>
    obtain ⟨c, hhead, hc⟩ := exists_head_binding binding (source.chars ++ rest)
    rw [Clause.chars] at htext
    rw [htext] at hhead
    obtain rfl := Option.some.inj hhead
    exact absurd hc (by decide)
  | both name before gap binding =>
    let tail := ',' :: (gap.chars ++ binding.chars) ++ (source.chars ++ rest)
    have htext : name.chars ++ (before.chars ++ tail) = word "type" after := by
      rw [← htext]
      simp [Clause.chars, tail]
    have htail : tail.head? = some ',' := rfl
    obtain ⟨c, hhead, hc⟩ := exists_head_blanks before htail (by decide)
    rcases eq_or_exists_of_name_append_eq hhead hc htext with rfl | ⟨d, more, rfl, hd⟩
    · rw [eq_of_space?_append rfl (by decide) hspace]
      exact Or.inl (clause?_eq_none (by decide) _)
    · rw [space?_eq_none (isBlank_of_isNameChar hd)] at hspace
      cases hspace

/-- The word `type` before something that a reader takes. -/
theorem typed?_append {next : List Char → Option (String × List Char)} (gap : Gap)
    {cs : List Char} {found : String × List Char} {c : Char} (hhead : cs.head? = some c)
    (hc : Text.isBlank c = false) (h : next cs = some found) :
    typed? next (word "type" (gap.chars ++ cs)) = some found := by
  rw [typed?, word?_word, Option.bind_some, space?_append gap hhead hc, Option.bind_some, h]
  rfl

theorem exists_head_clause (clause : Clause) (rest : List Char) :
    ∃ c, (clause.chars ++ rest).head? = some c ∧ Text.isBlank c = false := by
  have hbinding : ∀ binding : Binding, ∃ c, (binding.chars ++ rest).head? = some c ∧
      Text.isBlank c = false := by
    intro binding
    obtain ⟨c, hhead, rfl | rfl⟩ := exists_head_binding binding rest <;>
      exact ⟨_, hhead, by decide⟩
  cases clause with
  | default name after =>
    obtain ⟨c, hhead, hc⟩ := exists_head_name name (after.chars ++ rest)
    exact ⟨c, by rwa [Clause.chars, List.append_assoc], isBlank_of_isNameChar hc⟩
  | bindings binding => exact hbinding binding
  | both name before after binding =>
    obtain ⟨c, hhead, hc⟩ :=
      exists_head_name name (before.chars ++ ',' :: (after.chars ++ binding.chars) ++ rest)
    exact ⟨c, by rwa [Clause.chars, List.append_assoc], isBlank_of_isNameChar hc⟩

end RegistryBlock.Specifier
