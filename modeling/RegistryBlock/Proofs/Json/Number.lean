import RegistryBlock.Json.Reader
import RegistryBlock.Json.Writer
import RegistryBlock.Proofs.Text.Ends

/-!
# Integers are read back

An integer of any size is written in decimal without leading zeros. The reader takes the longest
number that it finds, so what comes after the integer must not continue it.
-/

namespace RegistryBlock.Json

/-- Whether a text does not continue a number. -/
def EndsNumber (rest : List Char) : Prop :=
  ∀ c ∈ rest.head?, c.isDigit = false ∧ c ≠ '.' ∧ c ≠ 'e' ∧ c ≠ 'E'

theorem endsNumber_nil : EndsNumber [] := by
  rintro c ⟨⟩

theorem endsNumber_cons {c : Char} (hdigit : c.isDigit = false) (hletter : c ∉ ['.', 'e', 'E'])
    (rest : List Char) : EndsNumber (c :: rest) := by
  rintro d hd
  obtain rfl := Option.some.inj hd
  simp only [List.mem_cons, List.not_mem_nil, or_false, not_or] at hletter
  exact ⟨hdigit, hletter⟩

section Digits

variable {ds rest : List Char}

theorem digits_append (hds : ∀ c ∈ ds, c.isDigit = true) (hrest : EndsNumber rest) :
    digits (ds ++ rest) = (ds, rest) := by
  have hstop : ∀ c ∈ rest.head?, c.isDigit = false := fun c hc => (hrest c hc).1
  rw [digits, Text.takeWhile_append_eq_left hds hstop, Text.dropWhile_append_eq_right hds hstop]

theorem fraction_of_endsNumber (hrest : EndsNumber rest) : fraction rest = ([], rest) := by
  unfold fraction
  split
  · exact absurd rfl (hrest '.' rfl).2.1
  · rfl

theorem exponent?_of_endsNumber (hrest : EndsNumber rest) : exponent? rest = none := by
  cases rest with
  | nil => rfl
  | cons c rest =>
    obtain ⟨-, -, hlower, hupper⟩ := hrest c rfl
    change (if c = 'e' ∨ c = 'E' then _ else none) = none
    exact if_neg (by simp [hlower, hupper])

/-- Without a fraction and an exponent a number is an integer. -/
theorem unsigned_of_endsNumber (negative : Bool) (whole : List Char) (hrest : EndsNumber rest) :
    unsigned negative whole rest =
      (.int (if negative then -(natOf whole : Int) else natOf whole), rest) := by
  rw [unsigned, fraction_of_endsNumber hrest]
  dsimp only
  rw [exponent?_of_endsNumber hrest]

end Digits

theorem isDigit_of_mem_digitChars {n : Nat} {c : Char} (h : c ∈ Decimal.digitChars n) :
    c.isDigit = true := Nat.isDigit_of_mem_toDigits (by decide) (by decide) h

theorem natOf_digitChars (n : Nat) : natOf (Decimal.digitChars n) = n :=
  Nat.ofDigitChars_ten_toDigits

theorem digitChars_ne_nil (n : Nat) : Decimal.digitChars n ≠ [] := Nat.toDigits_ne_nil

/-- Only zero is written with a zero in front. -/
theorem head?_digitChars_ne {n : Nat} (h : n ≠ 0) : (Decimal.digitChars n).head? ≠ some '0' := by
  induction n using Nat.strongRecOn with
  | ind n ih =>
    by_cases hn : n < 10
    · have hdigit : ∀ n < 10, n ≠ 0 → n.digitChar ≠ '0' := by decide
      rw [Decimal.digitChars, Nat.toDigits_of_lt_base hn]
      simpa using hdigit n hn h
    · have hfront := ih (n / 10) (by omega) (by omega)
      obtain ⟨d, ds, hds⟩ := List.exists_cons_of_ne_nil (digitChars_ne_nil (n / 10))
      rw [Decimal.digitChars] at hds hfront
      rw [Decimal.digitChars, Nat.toDigits_of_base_le (by decide) (by omega), hds]
      rwa [hds] at hfront

/-- The digits of a number decide, behind a minus sign or without one. -/
theorem number_of_digits {c : Char} {cs whole rest : List Char} (hc : c ≠ '-') (hzero : c ≠ '0')
    (h : digits (c :: cs) = (whole, rest)) (hne : whole ≠ []) :
    number (c :: cs) = .ok (unsigned false whole rest) ∧
      number ('-' :: c :: cs) = .ok (unsigned true whole rest) := by
  obtain ⟨d, ds, rfl⟩ := List.exists_cons_of_ne_nil hne
  constructor
  · unfold number
    split
    next negative body hsign =>
      split at hsign
      · next heq => exact absurd (List.cons.inj heq).1 hc
      · cases hsign
        split
        · next heq => exact absurd (List.cons.inj heq).1 hzero
        · rw [h]
  · unfold number
    split
    next negative body hsign =>
      cases hsign
      split
      · next heq => exact absurd (List.cons.inj heq).1 hzero
      · rw [h]

theorem number_digitChars (n : Nat) {rest : List Char} (hrest : EndsNumber rest) :
    number (Decimal.digitChars n ++ rest) = .ok (.int n, rest) ∧
      number ('-' :: (Decimal.digitChars n ++ rest)) = .ok (.int (-n), rest) := by
  by_cases hn : n = 0
  · subst hn
    have hzero (negative : Bool) := unsigned_of_endsNumber negative ['0'] hrest
    exact ⟨congrArg Except.ok (hzero false), congrArg Except.ok (hzero true)⟩
  · obtain ⟨c, cs, hcs⟩ := List.exists_cons_of_ne_nil (digitChars_ne_nil n)
    have hdigits := digits_append (fun c => isDigit_of_mem_digitChars (n := n)) hrest
    have hfirst : c.isDigit = true := isDigit_of_mem_digitChars (n := n) (by rw [hcs]; simp)
    have hminus : c ≠ '-' := by
      rintro rfl
      cases hfirst
    have hzero : c ≠ '0' := by
      rintro rfl
      exact head?_digitChars_ne hn (by rw [hcs]; rfl)
    rw [hcs, List.cons_append] at hdigits ⊢
    obtain ⟨hpositive, hnegative⟩ := number_of_digits hminus hzero hdigits (by simp)
    rw [hpositive, hnegative, ← hcs, unsigned_of_endsNumber _ _ hrest,
      unsigned_of_endsNumber _ _ hrest, natOf_digitChars]
    exact ⟨rfl, rfl⟩

theorem number_integer (n : Int) {rest : List Char} (hrest : EndsNumber rest) :
    number (integer n ++ rest) = .ok (.int n, rest) := by
  obtain ⟨hpositive, hnegative⟩ := number_digitChars n.natAbs hrest
  unfold integer
  split
  · next hn =>
    rw [List.cons_append, hnegative]
    congr
    omega
  · next hn =>
    rw [hpositive]
    congr
    omega

/-- An integer begins with a digit, or with a minus sign before one. -/
theorem exists_integer_eq (n : Int) :
    ∃ c cs, c.isDigit = true ∧ (integer n = c :: cs ∨ integer n = '-' :: c :: cs) := by
  obtain ⟨c, cs, hcs⟩ := List.exists_cons_of_ne_nil (digitChars_ne_nil n.natAbs)
  refine ⟨c, cs, isDigit_of_mem_digitChars (n := n.natAbs) (by rw [hcs]; simp), ?_⟩
  unfold integer
  split
  · exact Or.inr (by rw [hcs])
  · exact Or.inl hcs

/-- No word of JSON begins like an integer. -/
theorem word?_integer (n : Int) (rest : List Char) : word? (integer n ++ rest) = none := by
  obtain ⟨c, cs, hc, hinteger⟩ := exists_integer_eq n
  have hne {d : Char} (hd : d ∈ ['n', 't', 'f', 'N', 'I', '-']) : d ≠ c := by
    rintro rfl
    simp only [List.mem_cons, List.not_mem_nil, or_false] at hd
    rcases hd with rfl | rfl | rfl | rfl | rfl | rfl <;> cases hc
  have hword {d : Char} (hd : d ∈ ['n', 't', 'f', 'N', 'I', '-']) (word more : List Char) :
      Text.dropFront? (d :: word) (c :: more) = none := if_neg (hne hd)
  have hminus : Text.dropFront? "-Infinity".toList ('-' :: c :: (cs ++ rest)) = none :=
    hword (by decide) "nfinity".toList _
  unfold word?
  rw [List.findSome?_eq_none_iff]
  intro entry hentry
  rw [Option.map_eq_none_iff]
  simp only [words, List.mem_cons, List.not_mem_nil, or_false] at hentry
  rcases hinteger with hinteger | hinteger <;> rw [hinteger, List.cons_append]
  · rcases hentry with rfl | rfl | rfl | rfl | rfl | rfl <;> exact hword (by decide) _ _
  · rcases hentry with rfl | rfl | rfl | rfl | rfl | rfl
    case inr.inr.inr.inr.inr => exact hminus
    all_goals rfl

end RegistryBlock.Json
