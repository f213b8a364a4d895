import RegistryBlock.Proofs.Path.LastName
import RegistryBlock.Role

/-!
# Names of themes

A path names a theme if its last segment does. The test of the path looks for `theme` or `-theme` at
its end, with or without an extension, and may look past slashes; but a name has none, so nothing
before the last slash makes a difference.
-/

namespace RegistryBlock

/-- Whether a text is ASCII on one line. -/
def Text.IsAsciiLine (cs : List Char) : Prop := ∀ c ∈ cs, c.toNat < 128 ∧ c ≠ '\n'

instance (cs : List Char) : Decidable (Text.IsAsciiLine cs) :=
  decidable_of_iff (cs.all fun c => decide (c.toNat < 128 ∧ c ≠ '\n')) <| by
    simp only [List.all_eq_true, decide_eq_true_eq, Text.IsAsciiLine]

namespace Placement

/-- Whether a name is `theme` or ends in `-theme`, without regard to case. -/
def NamesTheme (name : Path.Segment) : Prop :=
  name.map Char.toLower = "theme".toList ∨ "-theme".toList <:+ name.map Char.toLower

instance (name : Path.Segment) : Decidable (NamesTheme name) :=
  inferInstanceAs (Decidable
    (name.map Char.toLower = "theme".toList ∨ "-theme".toList <:+ name.map Char.toLower))

/-- Whether a text is empty, or a dot with letters and digits behind it. -/
def IsPlainExtension (ext : Path.Segment) : Prop :=
  ext = [] ∨ ∃ letters, letters ≠ [] ∧ (∀ c ∈ letters, c.isAlphanum = true) ∧ ext = '.' :: letters

instance (ext : Path.Segment) : Decidable (IsPlainExtension ext) :=
  match ext with
  | [] => .isTrue (.inl rfl)
  | c :: letters =>
    decidable_of_iff (letters ≠ [] ∧ letters.all Char.isAlphanum = true ∧ c = '.') <| by
      simp [IsPlainExtension]

/-- Whether a name names a theme when at most one extension is taken off. -/
def IsThemeName (name : Path.Segment) : Prop :=
  ∃ base ext, name = base ++ ext ∧ IsPlainExtension ext ∧ NamesTheme base

instance (name : Path.Segment) : Decidable (IsThemeName name) :=
  decidable_of_iff (∃ n < name.length + 1, IsPlainExtension (name.drop n) ∧
      NamesTheme (name.take n)) <| by
    constructor
    · rintro ⟨n, -, hext, htheme⟩
      exact ⟨name.take n, name.drop n, (List.take_append_drop n name).symm, hext, htheme⟩
    · rintro ⟨base, ext, rfl, hext, htheme⟩
      refine ⟨base.length, Nat.lt_succ_of_le ?_, by simpa using hext, by simpa using htheme⟩
      simp

variable {cs front name letters : List Char}

/-! ### The end of a path -/

/-- A character before the letters is not the lower case of any other one. -/
theorem toLower_eq_iff {c d : Char} (hd : d.toNat < 'A'.toNat) : c.toLower = d ↔ c = d := by
  have hA : 'A'.val.toNat = 65 := rfl
  have hZ : 'Z'.val.toNat = 90 := rfl
  have hd : d.val.toNat < 65 := hd
  by_cases hupper : c.val ≥ 'A'.val ∧ c.val ≤ 'Z'.val
  · have hval : c.toLower.val = c.val + 32 := congrArg Char.val (dif_pos hupper)
    have hsum : (c.val + 32).toNat = (c.val.toNat + 32) % 2 ^ 32 := UInt32.toNat_add _ _
    rw [ge_iff_le, UInt32.le_iff_toNat_le, UInt32.le_iff_toNat_le, hA, hZ] at hupper
    refine iff_of_false (fun heq => ?_) fun heq => ?_
    · rw [← hval, heq] at hsum
      omega
    · rw [heq] at hupper
      omega
  · have hlower : c.toLower = c := dif_neg hupper
    rw [hlower]

theorem isFront_map_toLower (h : Path.IsFront front) : Path.IsFront (front.map Char.toLower) := by
  refine h.imp (fun hnil => by rw [hnil, List.map_nil]) fun ⟨dir, hdir⟩ => ?_
  exact ⟨dir.map Char.toLower, by rw [hdir, List.map_append]; rfl⟩

theorem not_mem_map_toLower {d : Char} (hd : d.toNat < 'A'.toNat) (h : d ∉ name) :
    d ∉ name.map Char.toLower := by
  intro hmem
  obtain ⟨c, hc, hlower⟩ := List.mem_map.1 hmem
  exact h ((toLower_eq_iff hd).1 hlower ▸ hc)

/-- On one line, a path ends in a theme if what stands before the word is nothing, or ends in a
slash or a hyphen. -/
theorem endsInTheme_iff_exists (h : '\n' ∉ cs) :
    endsInTheme cs = true ↔
      ∃ before, cs.map Char.toLower = before ++ "theme".toList ∧
        ∀ c ∈ before.getLast?, c = '/' ∨ c = '-' := by
  have hsplit (rest : List Char) :
      Text.dropFront? "emeht".toList (cs.map Char.toLower).reverse = some rest ↔
        cs.map Char.toLower = rest.reverse ++ "theme".toList := by
    rw [Text.dropFront?_eq_some_iff, List.reverse_eq_iff, List.reverse_append]
    rfl
  have hline := not_mem_map_toLower (by decide) h
  unfold endsInTheme
  cases hdrop : Text.dropFront? "emeht".toList (cs.map Char.toLower).reverse with
  | none =>
    refine iff_of_false Bool.false_ne_true fun ⟨before, hbefore, _⟩ => ?_
    have hrest := (hsplit before.reverse).2 (by rw [List.reverse_reverse, hbefore])
    rw [hdrop] at hrest
    cases hrest
  | some rest =>
    have hlower := (hsplit rest).1 hdrop
    have hexists : (∃ before, cs.map Char.toLower = before ++ "theme".toList ∧
        ∀ c ∈ before.getLast?, c = '/' ∨ c = '-') ↔ ∀ c ∈ rest.head?, c = '/' ∨ c = '-' := by
      rw [hlower]
      simp
    rw [hlower] at hline
    rw [hexists]
    cases rest with
    | nil => simp
    | cons c rest =>
      by_cases hslash : c = '/'
      · simp [hslash]
      · by_cases hhyphen : c = '-'
        · subst hhyphen
          have hrest : '\n' ∉ rest.takeWhile (· != '/') := fun hmem =>
            hline (by simp [(List.takeWhile_sublist _).subset hmem])
          simpa using hrest
        · simp [hslash, hhyphen]

/-- A front cannot reach into the word, and in a name there is no slash before it. -/
theorem append_theme_iff (hfront : Path.IsFront front) (hname : '/' ∉ name) :
    (∃ before, front ++ name = before ++ "theme".toList ∧
        ∀ c ∈ before.getLast?, c = '/' ∨ c = '-') ↔
      name = "theme".toList ∨ "-theme".toList <:+ name := by
  constructor
  · rintro ⟨before, happend, hlast⟩
    rcases List.append_eq_append_iff.1 happend with ⟨inner, rfl, rfl⟩ | ⟨inner, rfl, htheme⟩
    · rcases List.eq_nil_or_concat' inner with rfl | ⟨start, c, rfl⟩
      · exact .inl (List.nil_append _)
      · rcases hlast c (by simp) with rfl | rfl
        · exact absurd (by simp) hname
        · exact .inr ⟨start, by simp⟩
    · rcases List.eq_nil_or_concat' inner with rfl | ⟨start, c, rfl⟩
      · exact .inl htheme.symm
      · obtain ⟨dir, hdir⟩ := hfront.resolve_left (by simp)
        rw [← List.append_assoc] at hdir
        obtain rfl : c = '/' := by simpa using (List.append_inj' hdir rfl).2
        have hslash : '/' ∈ "theme".toList := by simp [htheme]
        exact absurd hslash (by decide)
  · rintro (rfl | ⟨start, rfl⟩)
    · refine ⟨front, rfl, fun c hc => ?_⟩
      rcases hfront with rfl | ⟨dir, rfl⟩
      · cases hc
      · left
        simpa using hc.symm
    · exact ⟨front ++ start ++ ['-'], by simp, by simp⟩

theorem endsInTheme_append (hfront : Path.IsFront front) (hname : '/' ∉ name)
    (hline : '\n' ∉ front ++ name) : endsInTheme (front ++ name) = true ↔ NamesTheme name := by
  have hslash : '/'.toNat < 'A'.toNat := by decide
  rw [endsInTheme_iff_exists hline, List.map_append]
  exact append_theme_iff (isFront_map_toLower hfront) (not_mem_map_toLower hslash hname)

/-! ### Extensions -/

theorem isLetterOrDigit_of_ascii {c : Char} (h : c.toNat < 128) :
    isLetterOrDigit c = c.isAlphanum := by
  have h₁ : c.toNat ≠ 0x130 := by omega
  have h₂ : c.toNat ≠ 0x131 := by omega
  have h₃ : c.toNat ≠ 0x17F := by omega
  have h₄ : c.toNat ≠ 0x212A := by omega
  simp [isLetterOrDigit, h₁, h₂, h₃, h₄]

theorem dropPlainExtension_append_cons (hne : letters ≠ [])
    (h : ∀ c ∈ letters, isLetterOrDigit c = true) :
    dropPlainExtension (front ++ '.' :: letters) = front := by
  have hreverse : (front ++ '.' :: letters).reverse = letters.reverse ++ '.' :: front.reverse := by
    simp
  have hletters : ∀ c ∈ letters.reverse, isLetterOrDigit c = true := fun c hc =>
    h c (List.mem_reverse.1 hc)
  have hdot : ∀ c ∈ ('.' :: front.reverse).head?, isLetterOrDigit c = false := by
    rintro c ⟨⟩
    decide
  rw [dropPlainExtension, hreverse, Text.takeWhile_append_eq_left hletters hdot,
    Text.dropWhile_append_eq_right hletters hdot]
  simp [hne]

theorem dropPlainExtension_cases (cs : List Char) :
    dropPlainExtension cs = cs ∨
      ∃ letters, letters ≠ [] ∧ (∀ c ∈ letters, isLetterOrDigit c = true) ∧
        cs = dropPlainExtension cs ++ '.' :: letters := by
  have hsplit : cs.reverse.takeWhile isLetterOrDigit ++ cs.reverse.dropWhile isLetterOrDigit =
      cs.reverse := List.takeWhile_append_dropWhile
  have hletters : ∀ c ∈ cs.reverse.takeWhile isLetterOrDigit, isLetterOrDigit c = true :=
    List.all_eq_true.1 List.all_takeWhile
  rw [dropPlainExtension]
  split
  · next rest hdrop =>
    split
    · exact .inl rfl
    · next hne =>
      refine .inr ⟨(cs.reverse.takeWhile isLetterOrDigit).reverse, ?_, ?_, ?_⟩
      · simpa using hne
      · exact fun c hc => hletters c (List.mem_reverse.1 hc)
      · rw [hdrop] at hsplit
        simpa using (congrArg List.reverse hsplit).symm
  · exact .inl rfl

theorem endsInTheme_iff (h : '\n' ∉ cs) :
    endsInTheme cs = true ↔ NamesTheme (Path.baseName cs) := by
  obtain ⟨front, hfront, hslash, hcs⟩ := Path.exists_front cs
  rw [hcs] at h
  have hends := endsInTheme_append hfront hslash h
  rwa [← hcs] at hends

theorem dropPlainExtension_isPrefix (cs : List Char) : dropPlainExtension cs <+: cs := by
  rcases dropPlainExtension_cases cs with heq | ⟨letters, -, -, heq⟩
  · rw [heq]
  · exact ⟨_, heq.symm⟩

/-- Taking the extension off an ASCII path takes it off the last name. -/
theorem isThemeName_baseName_iff (h : ∀ c ∈ cs, c.toNat < 128) :
    IsThemeName (Path.baseName cs) ↔
      NamesTheme (Path.baseName cs) ∨ NamesTheme (Path.baseName (dropPlainExtension cs)) := by
  constructor
  · rintro ⟨base, ext, hbase, rfl | ⟨letters, hne, hletters, rfl⟩, htheme⟩
    · rw [List.append_nil] at hbase
      exact .inl (hbase ▸ htheme)
    · obtain ⟨front, hfront, hslash, hcs⟩ := Path.exists_front cs
      have hplain : ∀ c ∈ letters, isLetterOrDigit c = true := fun c hc => by
        simp [isLetterOrDigit, hletters c hc]
      rw [hbase] at hslash hcs
      have hdrop : dropPlainExtension cs = front ++ base := by
        rw [hcs, ← List.append_assoc, dropPlainExtension_append_cons hne hplain]
      rw [hdrop, Path.baseName_append hfront fun hmem => hslash (List.mem_append_left _ hmem)]
      exact .inr htheme
  · rintro (htheme | htheme)
    · exact ⟨Path.baseName cs, [], (List.append_nil _).symm, .inl rfl, htheme⟩
    · rcases dropPlainExtension_cases cs with heq | ⟨letters, hne, hletters, heq⟩
      · rw [heq] at htheme
        exact ⟨Path.baseName cs, [], (List.append_nil _).symm, .inl rfl, htheme⟩
      · rw [heq] at h
        have hplain : ∀ c ∈ letters, c.isAlphanum = true := fun c hc => by
          rw [← isLetterOrDigit_of_ascii (h c (by simp [hc]))]
          exact hletters c hc
        have hslash : '/' ∉ '.' :: letters := by
          rw [List.mem_cons, not_or]
          exact ⟨by decide, fun hmem => absurd (hletters _ hmem) (by decide)⟩
        refine ⟨_, '.' :: letters, ?_, .inr ⟨letters, hne, hplain, rfl⟩, htheme⟩
        rw [← Path.baseName_append_of_not_mem hslash, ← heq]

/-- An ASCII path on one line names a theme if and only if its last segment does. -/
theorem isTheme_iff (h : Text.IsAsciiLine cs) :
    isTheme cs = true ↔ IsThemeName (Path.lastName (Path.segments cs)) := by
  have hline : '\n' ∉ cs := fun hmem => (h _ hmem).2 rfl
  have hdrop : '\n' ∉ dropPlainExtension cs := fun hmem =>
    hline ((dropPlainExtension_isPrefix cs).subset hmem)
  have hlast : cs.getLast? ≠ some '\n' := fun hlast => hline (List.mem_of_getLast? hlast)
  rw [← Path.baseName_eq_lastName, isThemeName_baseName_iff fun c hc => (h c hc).1,
    ← endsInTheme_iff hline, ← endsInTheme_iff hdrop, ← Bool.or_eq_true, isTheme, if_neg hlast]

/-- Other paths may name a theme where the segment does not: the kelvin sign counts as a letter, and
a line feed at the end does not count. -/
example :
    isTheme "theme.\u212A".toList = true ∧ ¬ IsThemeName "theme.\u212A".toList ∧
      isTheme "theme\n".toList = true ∧ ¬ IsThemeName "theme\n".toList := by
  decide +kernel

end Placement

end RegistryBlock
