import Mathlib.Data.List.Infix
import RegistryBlock.Proofs.Specifier.Reading

/-!
# Specifiers between quotation marks

Whatever a text is, the specifiers that are found in it are the bodies of literals that stand in it
one behind the other. Nothing ties the two marks of a literal to each other, so a body ends at the
next mark of either kind and may go over several lines. In a text with one kind of mark only, the
marks of each literal agree.
-/

namespace RegistryBlock.Specifier

/-! ### Rests of a text -/

theorem space_isSuffix (cs : List Char) : space cs <:+ cs := List.dropWhile_suffix _

theorem isSuffix_of_space?_eq_some {cs rest : List Char} (h : space? cs = some rest) :
    rest <:+ cs := by
  cases cs with
  | nil => cases h
  | cons c cs =>
    rw [space?, Option.ite_none_right_eq_some] at h
    obtain rfl := Option.some.inj h.2
    exact (space_isSuffix cs).trans (List.suffix_cons c cs)

theorem isSuffix_of_word?_eq_some {w : String} {cs rest : List Char} (h : word? w cs = some rest) :
    rest <:+ cs :=
  ⟨w.toList, (Text.dropFront?_eq_some_iff.1 h).symm⟩

theorem isSuffix_of_name?_eq_some {cs name rest : List Char} (h : name? cs = some (name, rest)) :
    rest <:+ cs := by
  unfold name? at h
  split at h
  · cases h
  · cases h
    exact List.dropWhile_suffix _

theorem isSuffix_of_braces?_eq_some {cs rest : List Char} (h : braces? cs = some rest) :
    rest <:+ cs := by
  unfold braces? at h
  split at h
  · next cs =>
    split at h
    · next close more hdrop =>
      obtain rfl := Option.some.inj h
      have hinner : close :: more <:+ cs := hdrop ▸ List.dropWhile_suffix _
      exact (List.suffix_cons close more).trans (hinner.trans (List.suffix_cons '{' cs))
    · cases h
  · cases h

/-! ### Readers -/

/-- Whether the specifier is the body of a literal in the text, with the rest somewhere behind. -/
def FoundIn (cs : List Char) (specifier : String) (rest : List Char) : Prop :=
  ∃ (literal : Literal) (after : List Char),
    literal.specifier = specifier ∧ literal.chars ++ after <:+ cs ∧ rest <:+ after

def FindsLiterals (reader : List Char → Option (String × List Char)) : Prop :=
  ∀ cs specifier rest, reader cs = some (specifier, rest) → FoundIn cs specifier rest

variable {cs rest : List Char} {specifier : String}

theorem FoundIn.of_isSuffix {inner : List Char} (h : FoundIn inner specifier rest)
    (hinner : inner <:+ cs) : FoundIn cs specifier rest := by
  obtain ⟨literal, after, hspecifier, hchars, hrest⟩ := h
  exact ⟨literal, after, hspecifier, hchars.trans hinner, hrest⟩

theorem literal?_findsLiterals : FindsLiterals literal? := by
  intro cs specifier rest h
  cases cs with
  | nil => cases h
  | cons mark cs =>
    rw [literal?, Option.ite_none_right_eq_some] at h
    obtain ⟨hmark, h⟩ := h
    split at h
    · next c body closing more hbody hdrop =>
      obtain ⟨rfl, rfl⟩ := Prod.mk.inj (Option.some.inj h)
      have hquotes : ∀ d ∈ c :: body, isQuote d = false := by
        intro d hd
        rw [← hbody] at hd
        simpa using List.all_eq_true.1 List.all_takeWhile d hd
      have hclosing : isQuote closing = true := by
        have hnot := List.head?_dropWhile_not (!isQuote ·) cs
        rw [hdrop] at hnot
        simpa using hnot
      have hcs : cs = c :: body ++ closing :: more := by
        rw [← hbody, ← hdrop, List.takeWhile_append_dropWhile]
      refine ⟨⟨mark, c :: body, closing, hmark, List.cons_ne_nil c body, hquotes, hclosing⟩, more,
        rfl, ?_, List.suffix_refl more⟩
      rw [hcs, Literal.chars]
      simp
    · cases h

theorem eq_some_or_of_orElse {α : Type} {p q : Option α} {found : α}
    (h : (p <|> q) = some found) : p = some found ∨ q = some found := by
  cases p with
  | none => exact .inr h
  | some other => exact .inl h

theorem FindsLiterals.orElse {p q : List Char → Option (String × List Char)}
    (hp : FindsLiterals p) (hq : FindsLiterals q) : FindsLiterals fun cs => p cs <|> q cs := by
  intro cs specifier rest h
  rcases eq_some_or_of_orElse h with h | h
  · exact hp _ _ _ h
  · exact hq _ _ _ h

theorem source?_findsLiterals : FindsLiterals source? := by
  intro cs specifier rest h
  obtain ⟨after, hword, h⟩ := Option.bind_eq_some_iff.1 h
  exact (literal?_findsLiterals _ _ _ h).of_isSuffix
    ((space_isSuffix after).trans (isSuffix_of_word?_eq_some hword))

/-- Behind a name either the next reader finds the literal, or the source does that the name has
grown together with. -/
theorem FindsLiterals.afterName? {next : List Char → Option (String × List Char)}
    (hnext : FindsLiterals next) (name : List Char) : FindsLiterals (afterName? next name) := by
  intro cs specifier rest h
  rw [Specifier.afterName?] at h
  split at h
  · next found hfound =>
    obtain rfl := Option.some.inj h
    exact (hnext _ _ _ hfound).of_isSuffix (space_isSuffix cs)
  · rw [Option.ite_none_right_eq_some] at h
    exact (literal?_findsLiterals _ _ _ h.2).of_isSuffix (space_isSuffix cs)

theorem bracesSource?_findsLiterals : FindsLiterals bracesSource? := by
  intro cs specifier rest h
  obtain ⟨after, hbraces, h⟩ := Option.bind_eq_some_iff.1 h
  exact (source?_findsLiterals _ _ _ h).of_isSuffix
    ((space_isSuffix after).trans (isSuffix_of_braces?_eq_some hbraces))

theorem namespaceSource?_findsLiterals : FindsLiterals namespaceSource? := by
  intro cs specifier rest h
  unfold namespaceSource? at h
  split at h
  · next cs =>
    obtain ⟨behindWord, hword, h⟩ := Option.bind_eq_some_iff.1 h
    obtain ⟨behindGap, hgap, h⟩ := Option.bind_eq_some_iff.1 h
    obtain ⟨⟨name, behindName⟩, hname, h⟩ := Option.bind_eq_some_iff.1 h
    refine (source?_findsLiterals.afterName? name _ _ _ h).of_isSuffix ?_
    calc behindName
      _ <:+ behindGap := isSuffix_of_name?_eq_some hname
      _ <:+ behindWord := isSuffix_of_space?_eq_some hgap
      _ <:+ space cs := isSuffix_of_word?_eq_some hword
      _ <:+ cs := space_isSuffix cs
      _ <:+ '*' :: cs := List.suffix_cons '*' cs
  · cases h

theorem bindings?_findsLiterals : FindsLiterals bindings? :=
  bracesSource?_findsLiterals.orElse
    (namespaceSource?_findsLiterals.orElse source?_findsLiterals)

theorem moreBindings?_findsLiterals : FindsLiterals moreBindings? := by
  intro cs specifier rest h
  unfold moreBindings? at h
  split at h
  · next after =>
    exact (bindings?_findsLiterals _ _ _ h).of_isSuffix
      ((space_isSuffix after).trans (List.suffix_cons ',' after))
  · exact bindings?_findsLiterals _ _ _ h

theorem clause?_findsLiterals : FindsLiterals clause? := by
  refine FindsLiterals.orElse ?_ bindings?_findsLiterals
  intro cs specifier rest h
  obtain ⟨⟨name, after⟩, hname, h⟩ := Option.bind_eq_some_iff.1 h
  exact (moreBindings?_findsLiterals.afterName? name _ _ _ h).of_isSuffix
    (isSuffix_of_name?_eq_some hname)

/-- A word of the language, white space and a reader. -/
theorem FindsLiterals.behindWord {next : List Char → Option (String × List Char)}
    (hnext : FindsLiterals next) (w : String) :
    FindsLiterals fun cs => (word? w cs).bind fun rest => (space? rest).bind next := by
  intro cs specifier rest h
  obtain ⟨behindWord, hword, h⟩ := Option.bind_eq_some_iff.1 h
  obtain ⟨behindGap, hgap, h⟩ := Option.bind_eq_some_iff.1 h
  exact (hnext _ _ _ h).of_isSuffix
    ((isSuffix_of_space?_eq_some hgap).trans (isSuffix_of_word?_eq_some hword))

theorem FindsLiterals.typed? {next : List Char → Option (String × List Char)}
    (hnext : FindsLiterals next) : FindsLiterals (typed? next) :=
  (hnext.behindWord "type").orElse hnext

theorem passedOn?_findsLiterals : FindsLiterals passedOn? := by
  intro cs specifier rest h
  unfold passedOn? at h
  split at h
  · next after =>
    rcases eq_some_or_of_orElse h with h | h
    · exact namespaceSource?_findsLiterals _ _ _ h
    · exact (source?_findsLiterals _ _ _ h).of_isSuffix
        ((space_isSuffix after).trans (List.suffix_cons '*' after))
  · exact bracesSource?_findsLiterals _ _ _ h

theorem importBare?_findsLiterals : FindsLiterals importBare? := by
  intro cs specifier rest h
  obtain ⟨after, hword, h⟩ := Option.bind_eq_some_iff.1 h
  exact (literal?_findsLiterals _ _ _ h).of_isSuffix
    ((space_isSuffix after).trans (isSuffix_of_word?_eq_some hword))

theorem call?_findsLiterals (function : String) : FindsLiterals (call? function) := by
  intro cs specifier rest h
  obtain ⟨behindWord, hword, h⟩ := Option.bind_eq_some_iff.1 h
  obtain ⟨inside, hopen, h⟩ := Option.bind_eq_some_iff.1 h
  obtain ⟨⟨found, behind⟩, hliteral, h⟩ := Option.bind_eq_some_iff.1 h
  obtain ⟨after, hclose, h⟩ := Option.map_eq_some_iff.1 h
  obtain ⟨rfl, rfl⟩ := Prod.mk.inj h
  obtain ⟨literal, more, hfound, hchars, hmore⟩ := literal?_findsLiterals _ _ _ hliteral
  refine ⟨literal, more, hfound, ?_, ?_⟩
  · calc literal.chars ++ more
      _ <:+ space inside := hchars
      _ <:+ inside := space_isSuffix inside
      _ <:+ space behindWord := isSuffix_of_word?_eq_some hopen
      _ <:+ behindWord := space_isSuffix behindWord
      _ <:+ cs := isSuffix_of_word?_eq_some hword
  · exact (isSuffix_of_word?_eq_some hclose).trans ((space_isSuffix behind).trans hmore)

theorem statement?_findsLiterals : FindsLiterals statement? :=
  (clause?_findsLiterals.typed?.behindWord "import").orElse
    (importBare?_findsLiterals.orElse
      ((passedOn?_findsLiterals.typed?.behindWord "export").orElse
        ((call?_findsLiterals "require").orElse (call?_findsLiterals "import"))))

/-! ### Texts -/

/-- Whether literals stand in a text one behind the other. -/
inductive Stand : List Literal → List Char → Prop where
  | nil (cs : List Char) : Stand [] cs
  | cons {literal : Literal} {literals : List Literal} {after cs : List Char}
      (chars : literal.chars ++ after <:+ cs) (behind : Stand literals after) :
      Stand (literal :: literals) cs

variable {literals : List Literal} {literal : Literal}

theorem Stand.of_isSuffix {inner : List Char} (h : Stand literals inner) (hinner : inner <:+ cs) :
    Stand literals cs := by
  cases h with
  | nil => exact .nil cs
  | cons hchars hbehind => exact .cons (hchars.trans hinner) hbehind

theorem Stand.isInfix (h : Stand literals cs) (hliteral : literal ∈ literals) :
    literal.chars <:+: cs := by
  induction h with
  | nil => cases hliteral
  | @cons first more after cs hchars _ ih =>
    rcases List.mem_cons.1 hliteral with rfl | hmore
    · exact (List.prefix_append literal.chars after).isInfix.trans hchars.isInfix
    · exact (ih hmore).trans ((List.suffix_append first.chars after).trans hchars).isInfix

/-- What is found in a text are the bodies of literals that stand in it. -/
theorem exists_stand_scan (inWord : Bool) (cs : List Char) :
    ∃ literals, Stand literals cs ∧ scan inWord cs = literals.map Literal.specifier := by
  fun_induction scan inWord cs with
  | case1 => exact ⟨[], .nil [], rfl⟩
  | case2 inWord c rest specifier after h ih =>
    obtain ⟨literals, hstand, hscan⟩ := ih
    have hstatement : statement? (c :: rest) = some (specifier, after) := by
      split at h
      · cases h
      · exact h
    obtain ⟨literal, behind, rfl, hchars, hafter⟩ := statement?_findsLiterals _ _ _ hstatement
    exact ⟨literal :: literals, .cons hchars (hstand.of_isSuffix hafter),
      congrArg (literal.specifier :: ·) hscan⟩
  | case3 inWord c rest h ih =>
    obtain ⟨literals, hstand, hscan⟩ := ih
    exact ⟨literals, hstand.of_isSuffix (List.suffix_cons c rest), hscan⟩

/-! ### Marks that agree -/

/-- Whether the marks of a literal agree and its body stays on one line. -/
def Literal.IsClosed (literal : Literal) : Prop :=
  literal.opening = literal.closing ∧ '\n' ∉ literal.body ∧ '\r' ∉ literal.body

/-- Whether a text has `body` on one line between two marks that agree. -/
def IsBodyIn (cs body : List Char) : Prop :=
  ('\n' ∉ body ∧ '\r' ∉ body) ∧ ∃ mark ∈ ['"', '\''], mark :: (body ++ [mark]) <:+: cs

instance (cs body : List Char) : Decidable (IsBodyIn cs body) :=
  decidable_of_iff (('\n' ∉ body ∧ '\r' ∉ body) ∧
    ('"' :: (body ++ ['"']) <:+: cs ∨ '\'' :: (body ++ ['\'']) <:+: cs)) (by simp [IsBodyIn])

theorem Literal.IsClosed.isBodyIn (h : literal.IsClosed) (hliteral : literal.chars <:+: cs) :
    IsBodyIn cs literal.body := by
  refine ⟨h.2, literal.opening, ?_, ?_⟩
  · simpa using isQuote_iff.1 literal.isQuote_opening
  · rwa [Literal.chars, ← h.1] at hliteral

/-- The marks of a literal in a text with one kind of mark agree. -/
theorem Literal.opening_eq_closing (hliteral : literal.chars <:+: cs)
    (hmarks : '\'' ∉ cs ∨ '"' ∉ cs) : literal.opening = literal.closing := by
  have hopening : literal.opening ∈ cs := hliteral.subset (by simp [Literal.chars])
  have hclosing : literal.closing ∈ cs := hliteral.subset (by simp [Literal.chars])
  rcases hmarks with hmarks | hmarks
  · have honly : ∀ mark ∈ cs, isQuote mark = true → mark = '"' := fun mark hmem hquote =>
      (isQuote_iff.1 hquote).resolve_right fun he => hmarks (he ▸ hmem)
    rw [honly _ hopening literal.isQuote_opening, honly _ hclosing literal.isQuote_closing]
  · have honly : ∀ mark ∈ cs, isQuote mark = true → mark = '\'' := fun mark hmem hquote =>
      (isQuote_iff.1 hquote).resolve_left fun he => hmarks (he ▸ hmem)
    rw [honly _ hopening literal.isQuote_opening, honly _ hclosing literal.isQuote_closing]

/-- The specifiers of a text are the bodies of literals that stand in it one behind the other, each
between two marks with no mark in between. Such a body is that of a string if the two marks agree
and it stays on one line; the marks do agree in a text with one kind of mark. -/
theorem all_between_marks (text : String) :
    ∃ literals, Stand literals text.toList ∧ all text = literals.map Literal.specifier ∧
      (∀ literal ∈ literals, literal.IsClosed → IsBodyIn text.toList literal.body) ∧
      ('\'' ∉ text.toList ∨ '"' ∉ text.toList →
        ∀ literal ∈ literals, literal.opening = literal.closing) := by
  obtain ⟨literals, hstand, hall⟩ := exists_stand_scan false text.toList
  refine ⟨literals, hstand, hall, ?_, ?_⟩
  · exact fun literal hliteral hclosed => hclosed.isBodyIn (hstand.isInfix hliteral)
  · exact fun hmarks literal hliteral =>
      literal.opening_eq_closing (hstand.isInfix hliteral) hmarks

/-- An apostrophe in a string with the other marks cuts off the specifier. -/
theorem not_isBodyIn_of_apostrophe :
    let text := "import \"./o'brien\""
    all text = ["./o"] ∧ ¬ IsBodyIn text.toList "./o".toList := by
  decide +kernel

/-- A string that is never closed takes the mark of the next one, with the lines in between. -/
example : all "import 'a\nx = \"b\"" = ["a\nx = "] := by decide +kernel

end RegistryBlock.Specifier
