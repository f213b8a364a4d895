import RegistryBlock.Json.Reader

/-!
# Steps of the reader

What the reader of values does with one value, one element or one entry, in terms of what the
readers of its parts do.
-/

namespace RegistryBlock.Json

variable {cs after next rest : List Char} {depth : Nat} {v : Value}

/-! ### Values -/

theorem value_string {s : String} (h : string ('"' :: cs) = .ok (s, rest)) :
    value (depth + 1) ('"' :: cs) = .ok (.str s, rest) := by
  rw [value, h]
  rfl

/-- Whether a text begins with none of the marks that open a string, an object or an array. -/
def IsUnmarked (cs : List Char) : Prop := ∀ c ∈ cs.head?, c ≠ '"' ∧ c ≠ '{' ∧ c ≠ '['

theorem isUnmarked_cons {c : Char} (hc : c ∉ ['"', '{', '[']) (cs : List Char) :
    IsUnmarked (c :: cs) := by
  rintro d hd
  obtain rfl := Option.some.inj hd
  simpa only [List.mem_cons, List.not_mem_nil, or_false, not_or] using hc

theorem value_unmarked (h : IsUnmarked cs) :
    value (depth + 1) cs =
      match word? cs with
      | some found => .ok found
      | none => number cs := by
  unfold value
  split
  · exact absurd rfl (h '"' rfl).1
  · exact absurd rfl (h '{' rfl).2.1
  · exact absurd rfl (h '[' rfl).2.2
  · rfl

theorem value_word (hcs : IsUnmarked cs) (h : word? cs = some (v, rest)) :
    value (depth + 1) cs = .ok (v, rest) := by
  rw [value_unmarked hcs, h]

theorem value_number (hcs : IsUnmarked cs) (hword : word? cs = none)
    (h : number cs = .ok (v, rest)) : value (depth + 1) cs = .ok (v, rest) := by
  rw [value_unmarked hcs, hword, h]

theorem value_array_nil (h : skipSpace cs = ']' :: rest) :
    value (depth + 1) ('[' :: cs) = .ok (.arr [], rest) := by
  rw [value, h]
  rfl

theorem value_array {vs : List Value} (h : skipSpace cs = next) (hnext : next.head? ≠ some ']')
    (helements : elements depth next = .ok (vs, rest)) :
    value (depth + 1) ('[' :: cs) = .ok (.arr vs, rest) := by
  rw [value, h]
  split
  · exact absurd rfl hnext
  · rw [helements]
    rfl

theorem value_object_nil (h : skipSpace cs = '}' :: rest) :
    value (depth + 1) ('{' :: cs) = .ok (.obj [], rest) := by
  rw [value, h]
  rfl

theorem value_object {members : List (String × Value)} (h : skipSpace cs = next)
    (hnext : next.head? ≠ some '}') (hentries : entries depth [] next = .ok (members, rest)) :
    value (depth + 1) ('{' :: cs) = .ok (.obj members, rest) := by
  rw [value, h]
  split
  · exact absurd rfl hnext
  · rw [hentries]
    rfl

/-! ### Elements and entries -/

theorem elements_last (hvalue : value depth cs = .ok (v, after))
    (hclose : skipSpace after = ']' :: rest) :
    elements (depth + 1) cs = .ok ([v], rest) := by
  rw [elements, hvalue]
  simp only [bind, Except.bind, hclose]
  rfl

theorem elements_more {vs : List Value} (hvalue : value depth cs = .ok (v, after))
    (hcomma : skipSpace after = ',' :: next)
    (hmore : elements depth (skipSpace next) = .ok (vs, rest)) :
    elements (depth + 1) cs = .ok (v :: vs, rest) := by
  rw [elements, hvalue]
  simp only [bind, Except.bind, hcomma, hmore]
  rfl

section Entries

variable {before members : List (String × Value)} {key : String} {afterKey afterColon : List Char}

theorem entries_last (hkey : string ('"' :: cs) = .ok (key, afterKey))
    (hcolon : skipSpace afterKey = ':' :: afterColon)
    (hvalue : value depth (skipSpace afterColon) = .ok (v, after))
    (hclose : skipSpace after = '}' :: rest) :
    entries (depth + 1) before ('"' :: cs) = .ok (put before key v, rest) := by
  rw [entries, hkey]
  simp only [bind, Except.bind, hcolon, hvalue, hclose]
  rfl

theorem entries_more (hkey : string ('"' :: cs) = .ok (key, afterKey))
    (hcolon : skipSpace afterKey = ':' :: afterColon)
    (hvalue : value depth (skipSpace afterColon) = .ok (v, after))
    (hcomma : skipSpace after = ',' :: next)
    (hmore : entries depth (put before key v) (skipSpace next) = .ok (members, rest)) :
    entries (depth + 1) before ('"' :: cs) = .ok (members, rest) := by
  rw [entries, hkey]
  simp only [bind, Except.bind, hcolon, hvalue, hcomma, hmore]

end Entries

end RegistryBlock.Json
