import Mathlib.Data.List.Basic
import RegistryBlock.Proofs.Specifier.Grammar
import RegistryBlock.Proofs.Text.Ends

/-!
# Reading the parts of a statement

Every reader takes back what its part of the grammar writes, whatever comes after it, as long as
the character behind a name cannot belong to it. The readers that are tried before the right one
fail at the first character, or come to the same specifier.
-/

namespace RegistryBlock.Specifier

/-! ### Characters -/

theorem isNameChar_of_isBlank {c : Char} (h : Text.isBlank c = true) : isNameChar c = false := by
  have hcodes : ∀ n ∈ [9, 10, 11, 12, 13, 28, 29, 30, 31, 32, 0x85, 0xA0, 0x1680, 0x2000, 0x2001,
      0x2002, 0x2003, 0x2004, 0x2005, 0x2006, 0x2007, 0x2008, 0x2009, 0x200A, 0x2028, 0x2029,
      0x202F, 0x205F, 0x3000], isNameChar (Char.ofNat n) = false := by decide +kernel
  rw [← Char.ofNat_toNat c]
  apply hcodes
  simp only [Text.isBlank, Bool.or_eq_true, Bool.and_eq_true, decide_eq_true_eq, beq_iff_eq] at h
  simp only [List.mem_cons, List.not_mem_nil, or_false]
  omega

theorem isBlank_of_isNameChar {c : Char} (h : isNameChar c = true) : Text.isBlank c = false := by
  by_contra hblank
  rw [isNameChar_of_isBlank (by simpa using hblank)] at h
  cases h

theorem isQuote_iff {c : Char} : isQuote c = true ↔ c = '"' ∨ c = '\'' := by
  simp [isQuote]

theorem isBlank_of_isQuote {c : Char} (h : isQuote c = true) : Text.isBlank c = false := by
  rcases isQuote_iff.1 h with rfl | rfl <;> decide

theorem isNameChar_of_isQuote {c : Char} (h : isQuote c = true) : isNameChar c = false := by
  rcases isQuote_iff.1 h with rfl | rfl <;> decide

/-! ### White space, words and names -/

theorem space_append (blanks : Blanks) {rest : List Char} {c : Char}
    (hhead : rest.head? = some c) (hc : Text.isBlank c = false) :
    space (blanks.chars ++ rest) = rest :=
  Text.dropWhile_append_eq_right blanks.isBlank (by simpa [hhead] using hc)

theorem space?_append (gap : Gap) {rest : List Char} {c : Char} (hhead : rest.head? = some c)
    (hc : Text.isBlank c = false) : space? (gap.chars ++ rest) = some rest := by
  have hspace := space_append gap.toBlanks hhead hc
  obtain ⟨first, more, hchars⟩ := List.exists_cons_of_ne_nil gap.ne_nil
  have hfirst : Text.isBlank first = true := gap.isBlank first (by rw [hchars]; simp)
  rw [hchars, List.cons_append] at hspace ⊢
  rw [space?, if_pos hfirst]
  rw [space, List.dropWhile_cons_of_pos hfirst] at hspace
  rw [space, hspace]

/-- White space is passed over to the very place where it ends. -/
theorem eq_of_space?_append {blanks : Blanks} {rest inner : List Char} {c : Char}
    (hhead : rest.head? = some c) (hc : Text.isBlank c = false)
    (h : space? (blanks.chars ++ rest) = some inner) : inner = rest := by
  by_cases hchars : blanks.chars = []
  · cases rest with
    | nil => cases hhead
    | cons first rest =>
      obtain rfl := Option.some.inj hhead
      rw [hchars, List.nil_append, space?, if_neg (by simp [hc])] at h
      cases h
  · rw [space?_append ⟨blanks, hchars⟩ hhead hc] at h
    exact (Option.some.inj h).symm

theorem space?_eq_none {c : Char} (hc : Text.isBlank c = false) (rest : List Char) :
    space? (c :: rest) = none := by
  rw [space?, if_neg (by simp [hc])]

theorem word?_word (w : String) (rest : List Char) : word? w (word w rest) = some rest :=
  Text.dropFront?_eq_some_iff.2 rfl

theorem name?_append (name : Name) {rest : List Char} {c : Char} (hhead : rest.head? = some c)
    (hc : isNameChar c = false) : name? (name.chars ++ rest) = some (name.chars, rest) := by
  have hstop : ∀ d ∈ rest.head?, isNameChar d = false := by simpa [hhead] using hc
  rw [name?, Text.takeWhile_append_eq_left name.isNameChar hstop,
    Text.dropWhile_append_eq_right name.isNameChar hstop]
  split
  · next h => exact absurd h name.ne_nil
  · rfl

theorem name?_eq_none {rest : List Char} {c : Char} (hhead : rest.head? = some c)
    (hc : isNameChar c = false) : name? rest = none := by
  cases rest with
  | nil => cases hhead
  | cons first rest =>
    obtain rfl := Option.some.inj hhead
    rw [name?, List.takeWhile_cons_of_neg (by simp [hc])]

theorem exists_head_name (name : Name) (rest : List Char) :
    ∃ c, (name.chars ++ rest).head? = some c ∧ isNameChar c = true := by
  obtain ⟨first, more, hchars⟩ := List.exists_cons_of_ne_nil name.ne_nil
  refine ⟨first, by rw [hchars]; rfl, name.isNameChar first (by rw [hchars]; simp)⟩

theorem exists_head_gap (gap : Gap) (rest : List Char) :
    ∃ c, (gap.chars ++ rest).head? = some c ∧ Text.isBlank c = true := by
  obtain ⟨first, more, hchars⟩ := List.exists_cons_of_ne_nil gap.ne_nil
  refine ⟨first, by rw [hchars]; rfl, gap.isBlank first (by rw [hchars]; simp)⟩

theorem exists_head_blanks (blanks : Blanks) {rest : List Char} {c : Char}
    (hhead : rest.head? = some c) (hc : isNameChar c = false) :
    ∃ d, (blanks.chars ++ rest).head? = some d ∧ isNameChar d = false := by
  by_cases hchars : blanks.chars = []
  · exact ⟨c, by rw [hchars, List.nil_append, hhead], hc⟩
  · obtain ⟨d, hd, hblank⟩ := exists_head_gap ⟨blanks, hchars⟩ rest
    exact ⟨d, hd, isNameChar_of_isBlank hblank⟩

/-! ### Readers of a specifier -/

/-- Whether a reader takes a text back and finds the specifier, whatever comes after the text. -/
def Reads (reader : List Char → Option (String × List Char)) (written : List Char)
    (specifier : String) : Prop :=
  ∀ rest, reader (written ++ rest) = some (specifier, rest)

theorem literal?_reads (literal : Literal) :
    Reads literal? literal.chars literal.specifier := by
  intro rest
  have hquote : ∀ c ∈ literal.body, (!isQuote c) = true := by
    simpa using literal.not_isQuote
  have hstop : ∀ c ∈ (literal.closing :: rest).head?, (!isQuote c) = false := by
    simpa using literal.isQuote_closing
  have htext : literal.chars ++ rest =
      literal.opening :: (literal.body ++ literal.closing :: rest) := by
    simp [Literal.chars]
  rw [htext, literal?, if_pos literal.isQuote_opening, Text.takeWhile_append_eq_left hquote hstop,
    Text.dropWhile_append_eq_right hquote hstop, Literal.specifier]
  obtain ⟨first, more, hbody⟩ := List.exists_cons_of_ne_nil literal.ne_nil
  rw [hbody]

theorem space_append_literal (blanks : Blanks) (literal : Literal) (rest : List Char) :
    space (blanks.chars ++ (literal.chars ++ rest)) = literal.chars ++ rest :=
  space_append blanks rfl (isBlank_of_isQuote literal.isQuote_opening)

theorem source?_reads (source : Source) : Reads source? source.chars source.specifier := by
  intro rest
  rw [Source.chars, word_append, List.append_assoc, source?, word?_word, Option.bind_some,
    space_append_literal]
  exact literal?_reads source.literal rest

theorem space_append_source (blanks : Blanks) (source : Source) (rest : List Char) :
    space (blanks.chars ++ (source.chars ++ rest)) = source.chars ++ rest :=
  space_append blanks rfl (by decide)

theorem afterName?_of_eq_some {next : List Char → Option (String × List Char)}
    {rest : List Char} {found : String × List Char} (h : next (space rest) = some found)
    (name : List Char) : afterName? next name rest = some found := by
  rw [afterName?, h]

/-! ### Bindings -/

theorem braces?_append (braces : Braces) (rest : List Char) :
    braces? (braces.chars ++ rest) = some rest := by
  have hinner : ∀ c ∈ braces.inner, (c != '}') = true := by
    intro c hc
    rw [bne_iff_ne]
    rintro rfl
    exact braces.close_not_mem hc
  have htext : braces.chars ++ rest = '{' :: (braces.inner ++ '}' :: rest) := by
    simp [Braces.chars]
  rw [htext, braces?, Text.dropWhile_append_eq_right hinner (by simp)]

theorem bracesSource?_reads (list : Braces) (after : Blanks) (source : Source) :
    Reads bracesSource? ((Binding.braces list after).chars ++ source.chars) source.specifier := by
  intro rest
  rw [Binding.chars, List.append_assoc, List.append_assoc, bracesSource?, braces?_append,
    Option.bind_some, space_append_source]
  exact source?_reads source rest

theorem namespaceSource?_reads (before : Blanks) (gap : Gap) (name : Name) (after : Gap)
    (source : Source) :
    Reads namespaceSource? ((Binding.star before gap name after).chars ++ source.chars)
      source.specifier := by
  intro rest
  obtain ⟨first, hfirst, hname⟩ := exists_head_name name (after.chars ++ (source.chars ++ rest))
  obtain ⟨blank, hblank, hgap⟩ := exists_head_gap after (source.chars ++ rest)
  simp only [Binding.chars, List.cons_append, List.append_assoc, word_append, namespaceSource?]
  rw [space_append before rfl (by decide), word?_word, Option.bind_some,
    space?_append gap hfirst (isBlank_of_isNameChar hname), Option.bind_some,
    name?_append name hblank (isNameChar_of_isBlank hgap), Option.bind_some]
  apply afterName?_of_eq_some
  rw [space_append_source]
  exact source?_reads source rest

theorem bindings?_reads (binding : Binding) (source : Source) :
    Reads bindings? (binding.chars ++ source.chars) source.specifier := by
  intro rest
  cases binding with
  | braces list after =>
    rw [bindings?, bracesSource?_reads list after source rest]
    rfl
  | star before gap name after =>
    have hbraces : bracesSource?
        ((Binding.star before gap name after).chars ++ source.chars ++ rest) = none := rfl
    rw [bindings?, hbraces, namespaceSource?_reads before gap name after source rest]
    rfl

theorem bindings?_reads_source (source : Source) :
    Reads bindings? source.chars source.specifier := by
  intro rest
  have hbraces : bracesSource? (source.chars ++ rest) = none := rfl
  have hnamespace : namespaceSource? (source.chars ++ rest) = none := rfl
  rw [bindings?, hbraces, hnamespace]
  exact source?_reads source rest

end RegistryBlock.Specifier
