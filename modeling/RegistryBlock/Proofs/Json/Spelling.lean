import RegistryBlock.Distinct
import RegistryBlock.Proofs.Json.Steps
import RegistryBlock.Proofs.Basic

/-!
# Values as they are spelled

A text may give a key of an object several times. The spelling of a value has every member in the
order of the text; the reader merges the members with the same key, so that the key keeps its first
place and has its last value. A text that can be read has one spelling up to merging. Where a text
escapes half of a surrogate pair, it spells the replacement character.
-/

namespace RegistryBlock.Json

namespace Value

mutual

def merged : Value → Value
  | arr items => arr (mergedItems items)
  | obj members => obj (merge [] members)
  | v => v

def mergedItems : List Value → List Value
  | [] => []
  | v :: items => merged v :: mergedItems items

/-- The members that spellings stand for, set one after the other behind those before them. -/
def merge (before : List (String × Value)) : List (String × Value) → List (String × Value)
  | [] => before
  | (key, v) :: members => merge (put before key (merged v)) members

end

/-! ### Keys and values after merging -/

theorem map_fst_merge (before pairs : List (String × Value)) :
    (merge before pairs).map Prod.fst =
      before.map Prod.fst ++ distinctBy id (before.map Prod.fst) (pairs.map Prod.fst) := by
  induction pairs generalizing before with
  | nil => simp [merge, distinctBy]
  | cons pair pairs ih =>
    obtain ⟨key, v⟩ := pair
    rw [merge, ih, map_fst_put, List.map_cons, distinctBy]
    simp only [id]
    split
    · rfl
    · have hseen (name : String) :
          name ∈ before.map Prod.fst ++ [key] ↔ name ∈ key :: before.map Prod.fst := by
        simp [or_comm]
      rw [List.append_assoc, distinctBy_congr_seen id hseen]
      rfl

/-- The last member with a key counts. -/
theorem lookup_merge (before pairs : List (String × Value)) (key : String) :
    (merge before pairs).lookup key =
      ((pairs.reverse.lookup key).map merged).or (before.lookup key) := by
  induction pairs generalizing before with
  | nil => rfl
  | cons pair pairs ih =>
    obtain ⟨name, v⟩ := pair
    rw [merge, ih, lookup_put, List.reverse_cons, List.lookup_append, lookup_cons_eq_ite]
    split <;> cases pairs.reverse.lookup key <;> rfl

/-- An object keeps its keys in their order, each at its first place. -/
theorem keys_merged (v : Value) : v.merged.keys = distinctBy id [] v.keys := by
  cases v with
  | obj members => exact map_fst_merge [] members
  | _ => rfl

end Value

/-! ### Spellings -/

/-- What stands in a text: a value, or what is left of an array or an object from an item or a
member on. -/
inductive Piece where
  | value (v : Value)
  | items (items : List Value)
  | members (members : List (String × Value))

/-- A text spells a piece and goes on with the rest. Nothing is merged. -/
inductive Spells : Piece → List Char → List Char → Prop where
  | string {s : String} {cs rest : List Char} (h : string ('"' :: cs) = .ok (s, rest)) :
      Spells (.value (.str s)) ('"' :: cs) rest
  | word {v : Value} {cs rest : List Char} (hcs : IsUnmarked cs)
      (h : word? cs = some (v, rest)) : Spells (.value v) cs rest
  | number {v : Value} {cs rest : List Char} (hcs : IsUnmarked cs) (hword : word? cs = none)
      (h : number cs = .ok (v, rest)) : Spells (.value v) cs rest
  | emptyArray {cs rest : List Char} (h : skipSpace cs = ']' :: rest) :
      Spells (.value (.arr [])) ('[' :: cs) rest
  | array {items : List Value} {cs rest : List Char} (hopen : (skipSpace cs).head? ≠ some ']')
      (hitems : Spells (.items items) (skipSpace cs) rest) :
      Spells (.value (.arr items)) ('[' :: cs) rest
  | emptyObject {cs rest : List Char} (h : skipSpace cs = '}' :: rest) :
      Spells (.value (.obj [])) ('{' :: cs) rest
  | object {members : List (String × Value)} {cs rest : List Char}
      (hopen : (skipSpace cs).head? ≠ some '}')
      (hmembers : Spells (.members members) (skipSpace cs) rest) :
      Spells (.value (.obj members)) ('{' :: cs) rest
  | lastItem {v : Value} {cs after rest : List Char} (hvalue : Spells (.value v) cs after)
      (hclose : skipSpace after = ']' :: rest) : Spells (.items [v]) cs rest
  | nextItem {v : Value} {items : List Value} {cs after next rest : List Char}
      (hvalue : Spells (.value v) cs after) (hcomma : skipSpace after = ',' :: next)
      (hmore : Spells (.items items) (skipSpace next) rest) : Spells (.items (v :: items)) cs rest
  | lastMember {key : String} {v : Value} {cs afterKey afterColon after rest : List Char}
      (hkey : Json.string ('"' :: cs) = .ok (key, afterKey))
      (hcolon : skipSpace afterKey = ':' :: afterColon)
      (hvalue : Spells (.value v) (skipSpace afterColon) after)
      (hclose : skipSpace after = '}' :: rest) : Spells (.members [(key, v)]) ('"' :: cs) rest
  | nextMember {key : String} {v : Value} {members : List (String × Value)}
      {cs afterKey afterColon after next rest : List Char}
      (hkey : Json.string ('"' :: cs) = .ok (key, afterKey))
      (hcolon : skipSpace afterKey = ':' :: afterColon)
      (hvalue : Spells (.value v) (skipSpace afterColon) after)
      (hcomma : skipSpace after = ',' :: next)
      (hmore : Spells (.members members) (skipSpace next) rest) :
      Spells (.members ((key, v) :: members)) ('"' :: cs) rest

/-- What the reader makes of a piece: the value, items or members that it stands for. -/
def Reads (depth : Nat) : Piece → List Char → List Char → Prop
  | .value v, cs, rest => value depth cs = .ok (v.merged, rest)
  | .items items, cs, rest => elements depth cs = .ok (Value.mergedItems items, rest)
  | .members members, cs, rest =>
    ∀ before, entries depth before cs = .ok (Value.merge before members, rest)

theorem merged_of_word? {v : Value} {cs rest : List Char} (h : word? cs = some (v, rest)) :
    v.merged = v := by
  obtain ⟨⟨w, found⟩, hmem, hfound⟩ := List.exists_of_findSome?_eq_some h
  obtain ⟨after, -, hpair⟩ := Option.map_eq_some_iff.1 hfound
  obtain ⟨rfl, rfl⟩ := Prod.mk.inj hpair
  have hwords : ∀ m ∈ words, m.2.merged = m.2 := by
    simp only [words, List.forall_mem_cons, Value.merged, true_and]
    exact List.forall_mem_nil _
  exact hwords _ hmem

theorem merged_of_number {v : Value} {cs rest : List Char} (h : number cs = .ok (v, rest)) :
    v.merged = v := by
  have hunsigned (negative : Bool) (whole tail : List Char) :
      (unsigned negative whole tail).1.merged = (unsigned negative whole tail).1 := by
    unfold unsigned
    dsimp only
    split <;> rw [Value.merged] <;> rintro _ ⟨⟩
  simp only [number] at h
  split at h
  · obtain rfl := congrArg Prod.fst (Except.ok.inj h)
    exact hunsigned ..
  · split at h
    · cases h
    · obtain rfl := congrArg Prod.fst (Except.ok.inj h)
      exact hunsigned ..

section Depth

variable {P Q R : Nat → Prop}

theorem exists_least_and (hP : ∃ least, ∀ depth, least ≤ depth → P depth)
    (hQ : ∃ least, ∀ depth, least ≤ depth → Q depth) :
    ∃ least, ∀ depth, least ≤ depth → P depth ∧ Q depth := by
  obtain ⟨m, hm⟩ := hP
  obtain ⟨n, hn⟩ := hQ
  exact ⟨max m n, fun depth h =>
    ⟨hm depth (Nat.le_trans (Nat.le_max_left m n) h),
      hn depth (Nat.le_trans (Nat.le_max_right m n) h)⟩⟩

theorem exists_least_succ (hP : ∃ least, ∀ depth, least ≤ depth → P depth)
    (hstep : ∀ depth, P depth → R (depth + 1)) :
    ∃ least, ∀ depth, least ≤ depth → R depth := by
  obtain ⟨least, hleast⟩ := hP
  refine ⟨least + 1, fun depth h => ?_⟩
  obtain ⟨depth, rfl⟩ := Nat.exists_eq_add_one.2 (Nat.zero_lt_of_lt h)
  exact hstep depth (hleast depth (Nat.le_of_succ_le_succ h))

end Depth

/-- A piece that is spelled is read, given enough depth, as what it stands for. -/
theorem Spells.exists_reads {piece : Piece} {cs rest : List Char} (h : Spells piece cs rest) :
    ∃ least, ∀ depth, least ≤ depth → Reads depth piece cs rest := by
  have hstart : ∃ least, ∀ depth : Nat, least ≤ depth → True := ⟨0, fun _ _ => trivial⟩
  induction h with
  | string h => exact exists_least_succ hstart fun depth _ => value_string h
  | word hcs h =>
    refine exists_least_succ hstart fun depth _ => ?_
    rw [Reads, merged_of_word? h]
    exact value_word hcs h
  | number hcs hword h =>
    refine exists_least_succ hstart fun depth _ => ?_
    rw [Reads, merged_of_number h]
    exact value_number hcs hword h
  | emptyArray h => exact exists_least_succ hstart fun depth _ => value_array_nil h
  | array hopen hitems ih =>
    exact exists_least_succ ih fun depth hread => value_array rfl hopen hread
  | emptyObject h => exact exists_least_succ hstart fun depth _ => value_object_nil h
  | object hopen hmembers ih =>
    exact exists_least_succ ih fun depth hread => value_object rfl hopen (hread [])
  | lastItem hvalue hclose ih =>
    exact exists_least_succ ih fun depth hread => elements_last hread hclose
  | nextItem hvalue hcomma hmore ih ihmore =>
    exact exists_least_succ (exists_least_and ih ihmore) fun depth hread =>
      elements_more hread.1 hcomma hread.2
  | lastMember hkey hcolon hvalue hclose ih =>
    exact exists_least_succ ih fun depth hread before =>
      entries_last hkey hcolon hread hclose
  | nextMember hkey hcolon hvalue hcomma hmore ih ihmore =>
    exact exists_least_succ (exists_least_and ih ihmore) fun depth hread before =>
      entries_more hkey hcolon hread.1 hcomma (hread.2 _)

/-- Whatever the readers take from a text at this depth is spelled there. -/
structure IsSpelled (depth : Nat) : Prop where
  value {cs rest : List Char} {v : Value} (h : value depth cs = .ok (v, rest)) :
    ∃ raw : Value, Spells (.value raw) cs rest ∧ raw.merged = v
  elements {cs rest : List Char} {items : List Value} (h : elements depth cs = .ok (items, rest)) :
    ∃ raws, Spells (.items raws) cs rest ∧ Value.mergedItems raws = items
  entries {before members : List (String × Value)} {cs rest : List Char}
    (h : entries depth before cs = .ok (members, rest)) :
    ∃ pairs, Spells (.members pairs) cs rest ∧ Value.merge before pairs = members

theorem head?_ne_some {cs : List Char} {c : Char} (h : ∀ rest, cs = c :: rest → False) :
    cs.head? ≠ some c := by
  intro hhead
  obtain ⟨rest, hrest⟩ := List.head?_eq_some_iff.1 hhead
  exact h rest hrest

namespace IsSpelled

variable {depth : Nat} {cs rest : List Char}

theorem value_succ {v : Value} (ih : IsSpelled depth)
    (h : Json.value (depth + 1) cs = .ok (v, rest)) :
    ∃ raw : Value, Spells (.value raw) cs rest ∧ raw.merged = v := by
  by_cases hmarked : IsUnmarked cs
  · rw [value_unmarked hmarked] at h
    split at h
    · next found hword =>
      obtain rfl := Except.ok.inj h
      exact ⟨v, .word hmarked hword, merged_of_word? hword⟩
    · next hword => exact ⟨v, .number hmarked hword h, merged_of_number h⟩
  · unfold Json.value at h
    split at h
    · obtain ⟨⟨s, after⟩, hs, heq⟩ := bind_eq_ok_iff.1 h
      obtain ⟨rfl, rfl⟩ := Prod.mk.inj (Except.ok.inj heq)
      exact ⟨.str s, .string hs, rfl⟩
    · split at h
      · next hskip =>
        obtain ⟨rfl, rfl⟩ := Prod.mk.inj (Except.ok.inj h)
        exact ⟨.obj [], .emptyObject hskip, rfl⟩
      · next hopen =>
        obtain ⟨⟨members, after⟩, hentries, heq⟩ := bind_eq_ok_iff.1 h
        obtain ⟨rfl, rfl⟩ := Prod.mk.inj (Except.ok.inj heq)
        obtain ⟨pairs, hpairs, rfl⟩ := ih.entries hentries
        exact ⟨.obj pairs, .object (head?_ne_some hopen) hpairs, rfl⟩
    · split at h
      · next hskip =>
        obtain ⟨rfl, rfl⟩ := Prod.mk.inj (Except.ok.inj h)
        exact ⟨.arr [], .emptyArray hskip, rfl⟩
      · next hopen =>
        obtain ⟨⟨items, after⟩, helements, heq⟩ := bind_eq_ok_iff.1 h
        obtain ⟨rfl, rfl⟩ := Prod.mk.inj (Except.ok.inj heq)
        obtain ⟨raws, hraws, rfl⟩ := ih.elements helements
        exact ⟨.arr raws, .array (head?_ne_some hopen) hraws, rfl⟩
    · next hstring hobject harray =>
      refine absurd (fun c hc => ⟨?_, ?_, ?_⟩) hmarked <;> rintro rfl
      · exact head?_ne_some hstring hc
      · exact head?_ne_some hobject hc
      · exact head?_ne_some harray hc

theorem elements_succ {items : List Value} (ih : IsSpelled depth)
    (h : Json.elements (depth + 1) cs = .ok (items, rest)) :
    ∃ raws, Spells (.items raws) cs rest ∧ Value.mergedItems raws = items := by
  rw [Json.elements] at h
  obtain ⟨⟨v, after⟩, hv, h⟩ := bind_eq_ok_iff.1 h
  obtain ⟨raw, hraw, rfl⟩ := ih.value hv
  dsimp only at h
  split at h
  · next hclose =>
    obtain ⟨rfl, rfl⟩ := Prod.mk.inj (Except.ok.inj h)
    exact ⟨[raw], .lastItem hraw hclose, rfl⟩
  · next hcomma =>
    obtain ⟨⟨more, last⟩, hmore, heq⟩ := bind_eq_ok_iff.1 h
    obtain ⟨rfl, rfl⟩ := Prod.mk.inj (Except.ok.inj heq)
    obtain ⟨raws, hraws, rfl⟩ := ih.elements hmore
    exact ⟨raw :: raws, .nextItem hraw hcomma hraws, rfl⟩
  · cases h

theorem entries_succ {before members : List (String × Value)} (ih : IsSpelled depth)
    (h : Json.entries (depth + 1) before cs = .ok (members, rest)) :
    ∃ pairs, Spells (.members pairs) cs rest ∧ Value.merge before pairs = members := by
  unfold Json.entries at h
  split at h
  · obtain ⟨⟨key, afterKey⟩, hkey, h⟩ := bind_eq_ok_iff.1 h
    dsimp only at h
    split at h
    · next hcolon =>
      obtain ⟨⟨v, after⟩, hv, h⟩ := bind_eq_ok_iff.1 h
      obtain ⟨raw, hraw, rfl⟩ := ih.value hv
      dsimp only at h
      split at h
      · next hclose =>
        obtain ⟨rfl, rfl⟩ := Prod.mk.inj (Except.ok.inj h)
        exact ⟨[(key, raw)], .lastMember hkey hcolon hraw hclose, rfl⟩
      · next hcomma =>
        obtain ⟨pairs, hpairs, rfl⟩ := ih.entries h
        exact ⟨(key, raw) :: pairs, .nextMember hkey hcolon hraw hcomma hpairs, rfl⟩
      · cases h
    · cases h
  · cases h

end IsSpelled

theorem isSpelled (depth : Nat) : IsSpelled depth := by
  induction depth with
  | zero =>
    exact
      { value := fun h => by rw [value] at h; cases h
        elements := fun h => by rw [elements] at h; cases h
        entries := fun h => by rw [entries] at h; cases h }
  | succ depth ih =>
    exact { value := ih.value_succ, elements := ih.elements_succ, entries := ih.entries_succ }

/-- Whether a text spells a value, with nothing but white space around it. -/
structure IsText (text : String) (raw : Value) : Prop where
  noMark : text.toList.head? ≠ some '\uFEFF'
  spells : ∃ rest, Spells (.value raw) (skipSpace text.toList) rest ∧ skipSpace rest = []

theorem document_eq_ok_iff {cs : List Char} {v : Value} :
    document cs = .ok v ↔ cs.head? ≠ some '\uFEFF' ∧
      ∃ rest, value (cs.length + 1) (skipSpace cs) = .ok (v, rest) ∧ skipSpace rest = [] := by
  unfold document
  split
  · simp only [List.head?_cons, ne_eq, not_true, false_and, iff_false]
    rintro ⟨⟩
  · next hmark =>
    rw [bind_eq_ok_iff, and_iff_right (head?_ne_some hmark)]
    constructor
    · rintro ⟨⟨found, rest⟩, hvalue, h⟩
      dsimp only at h
      split at h
      · next hrest =>
        obtain rfl := Except.ok.inj h
        exact ⟨rest, hvalue, hrest⟩
      · cases h
    · rintro ⟨rest, hvalue, hrest⟩
      refine ⟨(v, rest), hvalue, ?_⟩
      dsimp only
      rw [hrest]
      rfl

/-- A text that is read has a spelling, and any spelling of it stands for what is read. -/
theorem isText_of_parse {text : String} {v : Value} (h : parse text = .ok v) :
    (∃ raw, IsText text raw) ∧ ∀ raw, IsText text raw → raw.merged = v := by
  have hdocument : document text.toList = .ok v := by
    rw [parse] at h
    split at h
    · next hread => rwa [Except.ok.inj h] at hread
    · cases h
  obtain ⟨hmark, rest, hvalue, hrest⟩ := document_eq_ok_iff.1 hdocument
  obtain ⟨raw, hraw, hmerged⟩ := (isSpelled _).value hvalue
  refine ⟨⟨raw, hmark, rest, hraw, hrest⟩, fun other hother => ?_⟩
  obtain ⟨after, hspells, -⟩ := hother.spells
  obtain ⟨least, hreads⟩ := exists_least_and hraw.exists_reads hspells.exists_reads
  obtain ⟨hfirst, hsecond⟩ := hreads least (Nat.le_refl least)
  rw [Reads] at hfirst hsecond
  rw [hfirst] at hsecond
  rw [← hmerged]
  exact (congrArg Prod.fst (Except.ok.inj hsecond)).symm

end RegistryBlock.Json
