import RegistryBlock.Json.Reader
import RegistryBlock.Json.Writer

/-!
# Strings are read back

Every character has one escape, and the reader of strings gives the character back and goes on
behind it. Control characters are never written as they are, which the reader would refuse.
-/

namespace RegistryBlock.Json

theorem unicodeUnit_hexDigits {n : Nat} (h : n < 0x20) {rest : List Char} (hrest : rest ≠ []) :
    unicodeUnit ('u' :: (Text.hexDigits 4 n ++ rest)) = .ok (n, rest) := by
  have hnumber : ∀ n < 0x20, Text.hexNumber? (Text.hexDigits 4 n) = some n := by decide
  obtain ⟨next, more, rfl⟩ := List.exists_cons_of_ne_nil hrest
  have hread := hnumber n h
  simp only [Text.hexDigits, List.nil_append, List.cons_append] at hread ⊢
  rw [unicodeUnit, hread]

/-- Control characters lie below the surrogates. -/
theorem unicodeEscape_hexDigits {c : Char} (h : c.toNat < 0x20) {rest : List Char}
    (hrest : rest ≠ []) :
    unicodeEscape ('u' :: (Text.hexDigits 4 c.toNat ++ rest)) = .ok (c, rest) := by
  have hhigh : ¬ (0xD800 ≤ c.toNat ∧ c.toNat < 0xDC00) := by omega
  have hlow : ¬ (0xDC00 ≤ c.toNat ∧ c.toNat < 0xE000) := by omega
  rw [unicodeEscape, unicodeUnit_hexDigits h hrest]
  change (if 0xD800 ≤ c.toNat ∧ c.toNat < 0xDC00 then _ else _) = _
  rw [if_neg hhigh, if_neg hlow, Char.ofNat_toNat]
  rfl

section Turn

variable {opened more tail after : List Char} {turns : Nat} {c : Char}

theorem stringBody_letter {e : Char} (he : unescape? e = some c) (hne : e ≠ 'u')
    (h : stringBody opened turns more = .ok (tail, after)) :
    stringBody opened (turns + 1) ('\\' :: e :: more) = .ok (c :: tail, after) := by
  rw [stringBody]
  · rw [he]
    dsimp only
    rw [h]
    rfl
  · exact hne

theorem stringBody_control (hc : c.toNat < 0x20)
    (h : stringBody opened turns more = .ok (tail, after)) :
    stringBody opened (turns + 1) ('\\' :: 'u' :: (Text.hexDigits 4 c.toNat ++ more)) =
      .ok (c :: tail, after) := by
  have hmore : more ≠ [] := by
    rintro rfl
    cases turns <;> cases h
  rw [stringBody, unicodeEscape_hexDigits hc hmore]
  change (stringBody opened turns more >>= fun found => pure (c :: found.1, found.2)) = _
  rw [h]
  rfl

theorem stringBody_plain (hmark : c ≠ '"') (hescape : c ≠ '\\') (hc : ¬ c.toNat ≤ 0x1F)
    (h : stringBody opened turns more = .ok (tail, after)) :
    stringBody opened (turns + 1) (c :: more) = .ok (c :: tail, after) := by
  rw [stringBody]
  · rw [if_neg hc, h]
    rfl
  · exact fun hc => hmark hc
  · exact fun hc _ => hescape hc
  · exact fun _ hc _ => hescape hc
  · exact fun _ _ hc _ => hescape hc

/-- A turn of the reader takes one character back. -/
theorem stringBody_escapeChar (h : stringBody opened turns more = .ok (tail, after)) (c : Char) :
    stringBody opened (turns + 1) (escapeChar c ++ more) = .ok (c :: tail, after) := by
  unfold escapeChar
  split
  · next hc => exact stringBody_letter (by rw [hc]; rfl) (by decide) h
  split
  · next hc => exact stringBody_letter (by rw [hc]; rfl) (by decide) h
  split
  · next hc => exact stringBody_letter (by rw [hc]; rfl) (by decide) h
  split
  · next hc => exact stringBody_letter (by rw [hc]; rfl) (by decide) h
  split
  · next hc => exact stringBody_letter (by rw [hc]; rfl) (by decide) h
  split
  · next hc => exact stringBody_letter (by rw [hc]; rfl) (by decide) h
  split
  · next hc => exact stringBody_letter (by rw [hc]; rfl) (by decide) h
  split
  · next hc => exact stringBody_control hc h
  · next hmark hescape _ _ _ _ _ hc => exact stringBody_plain hmark hescape (by omega) h

end Turn

/-- The body of a string takes as many turns as it has characters, and one for the mark. -/
theorem stringBody_escaped (opened : List Char) (cs : List Char) {turns : Nat}
    (hturns : cs.length < turns) (rest : List Char) :
    stringBody opened turns (cs.flatMap escapeChar ++ '"' :: rest) = .ok (cs, rest) := by
  induction cs generalizing turns with
  | nil =>
    obtain ⟨turns, rfl⟩ := Nat.exists_eq_add_one.2 hturns
    rfl
  | cons c cs ih =>
    rw [List.length_cons] at hturns
    obtain ⟨turns, rfl⟩ := Nat.exists_eq_add_one.2 (Nat.zero_lt_of_lt hturns)
    rw [List.flatMap_cons, List.append_assoc]
    exact stringBody_escapeChar (ih (Nat.lt_of_succ_lt_succ hturns)) c

theorem length_le_length_escaped (cs : List Char) :
    cs.length ≤ (cs.flatMap escapeChar).length := by
  have hone (c : Char) : 1 ≤ (escapeChar c).length := by
    unfold escapeChar
    repeat' split
    all_goals simp
  induction cs with
  | nil => exact Nat.le_refl _
  | cons c cs ih =>
    have hc := hone c
    rw [List.flatMap_cons, List.length_append, List.length_cons]
    omega

theorem quote_append (s : String) (rest : List Char) :
    quote s ++ rest = '"' :: (s.toList.flatMap escapeChar ++ '"' :: rest) := by
  simp [quote]

theorem string_quote (s : String) (rest : List Char) :
    string (quote s ++ rest) = .ok (s, rest) := by
  have hturns : s.toList.length < (quote s ++ rest).length := by
    have hlength := length_le_length_escaped s.toList
    rw [quote_append, List.length_cons, List.length_append]
    omega
  have hbody := stringBody_escaped (quote s ++ rest) s.toList hturns rest
  have hdrop : (quote s ++ rest).drop 1 = s.toList.flatMap escapeChar ++ '"' :: rest := by
    rw [quote_append, List.drop_one, List.tail_cons]
  rw [string, hdrop, hbody]
  change Except.ok (String.ofList s.toList, rest) = _
  rw [String.ofList_toList]

end RegistryBlock.Json
