import RegistryBlock.Proofs.Specifier.Clause

/-!
# Reading a program

The five forms are tried in a fixed order at every place where a word begins. On a statement of the
grammar those that come before its own form fail, and its own form finds its specifier and ends
where the statement ends. So a row of statements gives the row of their specifiers.
-/

namespace RegistryBlock.Specifier

/-! ### Imports -/

theorem importFrom?_reads (gap : Gap) (type : Option Gap) (clause : Clause) (source : Source) :
    Reads importFrom? (Statement.importFrom gap type clause source).chars source.specifier := by
  intro rest
  have hread := clause?_reads clause source rest
  have htyped := typed?_clause?_reads clause source rest
  rw [List.append_assoc] at hread htyped
  obtain ⟨c, hhead, hc⟩ := exists_head_clause clause (source.chars ++ rest)
  simp only [Statement.chars, word_append, List.append_assoc, importFrom?]
  rw [word?_word, Option.bind_some]
  cases type with
  | none => rw [typeChars, List.nil_append, space?_append gap hhead hc, Option.bind_some, htyped]
  | some inner =>
    rw [typeChars, word_append, space?_append gap rfl (by decide), Option.bind_some,
      typed?_append inner hhead hc hread]

theorem importBare?_reads (before : Blanks) (literal : Literal) :
    Reads importBare? (Statement.importBare before literal).chars literal.specifier := by
  intro rest
  rw [Statement.chars, word_append, List.append_assoc, importBare?, word?_word,
    Option.bind_some, space_append_literal]
  exact literal?_reads literal rest

/-- No clause begins with a quotation mark or a parenthesis. -/
theorem importFrom?_eq_none (before : Blanks) {c : Char} (hc : c ∈ ['"', '\'', '('])
    (rest : List Char) : importFrom? (word "import" (before.chars ++ c :: rest)) = none := by
  have hblank : Text.isBlank c = false := by
    simp only [List.mem_cons, List.not_mem_nil, or_false] at hc
    rcases hc with rfl | rfl | rfl <;> decide
  have htyped : typed? clause? (c :: rest) = none := by
    have hclause : clause? (c :: rest) = none :=
      clause?_eq_none (List.mem_append_left [','] hc) rest
    rw [typed?, hclause]
    simp only [List.mem_cons, List.not_mem_nil, or_false] at hc
    rcases hc with rfl | rfl | rfl <;> rfl
  rw [importFrom?, word?_word, Option.bind_some]
  cases hspace : space? (before.chars ++ c :: rest) with
  | none => rfl
  | some inner => rw [eq_of_space?_append rfl hblank hspace, Option.bind_some, htyped]

/-! ### Exports -/

theorem passedOn?_reads (passed : Passed) (source : Source) :
    Reads passedOn? (passed.chars ++ source.chars) source.specifier := by
  intro rest
  cases passed with
  | all after =>
    have hnamespace : namespaceSource? ('*' :: (after.chars ++ (source.chars ++ rest))) = none := by
      rw [namespaceSource?, space_append_source]
      rfl
    rw [Passed.chars, List.cons_append, List.cons_append, List.append_assoc, passedOn?,
      hnamespace, space_append_source]
    exact source?_reads source rest
  | bindings binding =>
    cases binding with
    | braces list after => exact bracesSource?_reads list after source rest
    | star before gap name after =>
      have hnamespace := namespaceSource?_reads before gap name after source rest
      rw [Passed.chars]
      rw [Binding.chars, List.cons_append, List.cons_append] at hnamespace ⊢
      rw [passedOn?, hnamespace]
      rfl

theorem exists_head_passed (passed : Passed) (rest : List Char) :
    ∃ c, (passed.chars ++ rest).head? = some c ∧ (c = '{' ∨ c = '*') := by
  cases passed with
  | all after => exact ⟨'*', rfl, Or.inr rfl⟩
  | bindings binding => exact exists_head_binding binding rest

theorem exportFrom?_reads (gap : Gap) (type : Option Gap) (passed : Passed) (source : Source) :
    Reads exportFrom? (Statement.exportFrom gap type passed source).chars source.specifier := by
  intro rest
  have hread := passedOn?_reads passed source rest
  rw [List.append_assoc] at hread
  obtain ⟨c, hhead, hc⟩ := exists_head_passed passed (source.chars ++ rest)
  have hblank : Text.isBlank c = false := by rcases hc with rfl | rfl <;> decide
  have hne : c ≠ 't' := by rcases hc with rfl | rfl <;> decide
  simp only [Statement.chars, word_append, List.append_assoc, exportFrom?]
  rw [word?_word, Option.bind_some]
  cases type with
  | none =>
    rw [typeChars, List.nil_append, space?_append gap hhead hblank, Option.bind_some,
      typed?_of_head hhead hne hread]
  | some inner =>
    rw [typeChars, word_append, space?_append gap rfl (by decide), Option.bind_some,
      typed?_append inner hhead hblank hread]

/-! ### Calls -/

theorem call?_reads (loader : Loader) (before inside : Blanks) (literal : Literal)
    (after : Blanks) :
    Reads (call? loader.name) (Statement.call loader before inside literal after).chars
      literal.specifier := by
  intro rest
  have hopen (more : List Char) : word? "(" ('(' :: more) = some more := word?_word "(" more
  have hclose : word? ")" (')' :: rest) = some rest := word?_word ")" rest
  have hliteral := literal?_reads literal (after.chars ++ ')' :: rest)
  simp only [Statement.chars, word_append, List.append_assoc, List.cons_append, List.nil_append,
    call?]
  rw [word?_word, Option.bind_some, space_append before rfl (by decide), hopen,
    Option.bind_some, space_append_literal, hliteral, Option.bind_some]
  dsimp only
  rw [space_append after rfl (by decide), hclose]
  rfl

/-! ### Statements -/

theorem statement?_reads (statement : Statement) :
    Reads statement? statement.chars statement.specifier := by
  intro rest
  cases statement with
  | importFrom gap type clause source =>
    rw [statement?, importFrom?_reads gap type clause source rest]
    rfl
  | importBare before literal =>
    have hmark : literal.opening ∈ ['"', '\'', '('] := by
      rcases isQuote_iff.1 literal.isQuote_opening with h | h <;> rw [h] <;> decide
    have himport : importFrom? ((Statement.importBare before literal).chars ++ rest) = none := by
      rw [Statement.chars, word_append, List.append_assoc]
      exact importFrom?_eq_none before hmark _
    rw [statement?, himport, importBare?_reads before literal rest]
    rfl
  | exportFrom gap type passed source =>
    have himport : importFrom? ((Statement.exportFrom gap type passed source).chars ++ rest) =
      none := rfl
    have hbare : importBare? ((Statement.exportFrom gap type passed source).chars ++ rest) =
      none := rfl
    rw [statement?, himport, hbare, exportFrom?_reads gap type passed source rest]
    rfl
  | call loader before inside literal after =>
    have hcall := call?_reads loader before inside literal after rest
    cases loader with
    | require =>
      have himport : importFrom?
          ((Statement.call .require before inside literal after).chars ++ rest) = none := rfl
      have hbare : importBare?
          ((Statement.call .require before inside literal after).chars ++ rest) = none := rfl
      have hexport : exportFrom?
          ((Statement.call .require before inside literal after).chars ++ rest) = none := rfl
      rw [Loader.name] at hcall
      rw [statement?, himport, hbare, hexport, hcall]
      rfl
    | dynamic =>
      have himport : importFrom?
          ((Statement.call .dynamic before inside literal after).chars ++ rest) = none := by
        rw [Statement.chars, word_append, List.append_assoc]
        exact importFrom?_eq_none before (by decide) _
      have hbare : importBare?
          ((Statement.call .dynamic before inside literal after).chars ++ rest) = none := by
        rw [Statement.chars, word_append, List.append_assoc, Loader.name, importBare?, word?_word,
          Option.bind_some, List.cons_append, space_append before rfl (by decide)]
        rfl
      have hexport : exportFrom?
          ((Statement.call .dynamic before inside literal after).chars ++ rest) = none := rfl
      have hrequire : call? "require"
          ((Statement.call .dynamic before inside literal after).chars ++ rest) = none := rfl
      rw [Loader.name] at hcall
      rw [statement?, himport, hbare, hexport, hrequire, hcall]
      rfl

/-! ### Programs -/

theorem scan_of_statement?_eq_some {cs after : List Char} {specifier : String}
    (h : statement? cs = some (specifier, after)) :
    scan false cs = specifier :: scan false after := by
  cases cs with
  | nil => cases h
  | cons c rest =>
    rw [scan]
    split
    · next hstatement =>
      rw [if_neg Bool.false_ne_true, h] at hstatement
      cases hstatement
      rfl
    · next hstatement =>
      rw [if_neg Bool.false_ne_true, h] at hstatement
      cases hstatement

theorem scan_of_statement?_eq_none {c : Char} {rest : List Char}
    (h : statement? (c :: rest) = none) : scan false (c :: rest) = scan (Text.isWord c) rest := by
  rw [scan]
  split
  · next hstatement =>
    rw [if_neg Bool.false_ne_true, h] at hstatement
    cases hstatement
  · rfl

/-- Between two statements there is nothing to find. -/
theorem scan_separator (rest : List Char) :
    scan false (";\n".toList ++ rest) = scan false rest := by
  have htext : ";\n".toList ++ rest = ';' :: '\n' :: rest := rfl
  have hsemicolon : Text.isWord ';' = false := by decide
  have hline : Text.isWord '\n' = false := by decide
  rw [htext, scan_of_statement?_eq_none rfl, hsemicolon, scan_of_statement?_eq_none rfl, hline]

theorem scan_statement (statement : Statement) (rest : List Char) :
    scan false (statement.chars ++ rest) = statement.specifier :: scan false rest :=
  scan_of_statement?_eq_some (statement?_reads statement rest)

/-- A program gives the specifiers of its statements, in order and each of them once. -/
theorem all_program (statements : List Statement) :
    all (program statements) = statements.map Statement.specifier := by
  have hnil : scan false [] = [] := by rw [scan]
  have hchars : String.toList ∘ Statement.text = Statement.chars :=
    funext fun statement => String.toList_ofList
  rw [all, program, String.toList_intercalate, List.map_map, hchars]
  induction statements with
  | nil => rw [List.map_nil, List.intercalate_nil, hnil, List.map_nil]
  | cons first rest ih =>
    rw [List.map_cons, List.map_cons]
    cases rest with
    | nil =>
      have hlast := scan_statement first []
      rw [List.append_nil, hnil] at hlast
      rw [List.map_nil, List.intercalate_singleton, hlast, List.map_nil]
    | cons second rest =>
      rw [List.map_cons, List.intercalate_cons_cons, List.append_assoc, scan_statement,
        scan_separator, ← List.map_cons, ih]

/-- Words of the language as names. -/
example : all "import type from \"a\";\nimport from, * as as from 'b'" = ["a", "b"] := by
  decide +kernel

end RegistryBlock.Specifier
