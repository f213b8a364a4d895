/-!
# Characters in sequence

Splitting, cutting and trimming of character lists. Every operation is a recursion on the list or
a composition of the list operations of the core library, and the lemmas say what is lost: nothing
by `split`, exactly the given front by `dropFront?`.
-/

namespace RegistryBlock.Text

/-- The pieces between the separators, empty pieces included. -/
def split (sep : Char) : List Char → List (List Char)
  | [] => [[]]
  | c :: cs =>
    if c = sep then [] :: split sep cs
    else
      match split sep cs with
      | [] => [[c]]
      | piece :: pieces => (c :: piece) :: pieces

theorem split_ne_nil (sep : Char) (cs : List Char) : split sep cs ≠ [] := by
  cases cs with
  | nil => simp [split]
  | cons c cs =>
    simp only [split]
    split
    · simp
    · split <;> simp

def join (sep : Char) : List (List Char) → List Char
  | [] => []
  | [piece] => piece
  | piece :: pieces => piece ++ sep :: join sep pieces

theorem join_split (sep : Char) (cs : List Char) : join sep (split sep cs) = cs := by
  induction cs with
  | nil => rfl
  | cons c cs ih =>
    simp only [split]
    split
    · next h =>
      cases hs : split sep cs with
      | nil => exact absurd hs (split_ne_nil sep cs)
      | cons piece pieces => rw [hs] at ih; simp [join, h, ih]
    · split
      · next hs => exact absurd hs (split_ne_nil sep cs)
      · next piece pieces hs =>
        rw [hs] at ih
        cases pieces with
        | nil => simpa [join] using ih
        | cons next rest => simpa [join] using ih

def dropFront? {α : Type} [DecidableEq α] : List α → List α → Option (List α)
  | [], cs => some cs
  | _ :: _, [] => none
  | f :: front, c :: cs => if f = c then dropFront? front cs else none

theorem dropFront?_eq_some_iff {α : Type} [DecidableEq α] {front cs rest : List α} :
    dropFront? front cs = some rest ↔ cs = front ++ rest := by
  induction front generalizing cs with
  | nil => simp [dropFront?]
  | cons f front ih =>
    cases cs with
    | nil => simp [dropFront?]
    | cons c cs =>
      simp only [dropFront?, List.cons_append, List.cons.injEq]
      split
      · next h => simp [ih, h]
      · next h => simp [Ne.symm h]

def startsWith (front cs : List Char) : Bool := (dropFront? front cs).isSome

theorem startsWith_iff {front cs : List Char} :
    startsWith front cs = true ↔ ∃ rest, cs = front ++ rest := by
  simp [startsWith, Option.isSome_iff_exists, dropFront?_eq_some_iff]

def endsWith (tail cs : List Char) : Bool := startsWith tail.reverse cs.reverse

theorem length_dropWhile_le {α : Type} (p : α → Bool) (l : List α) :
    (l.dropWhile p).length ≤ l.length :=
  (List.dropWhile_sublist p).length_le

/-- The text without its longest tail of characters that satisfy `p`. -/
def dropEndWhile (p : Char → Bool) (cs : List Char) : List Char :=
  (cs.reverse.dropWhile p).reverse

/-- The text without the characters at either end that satisfy `p`. -/
def trimBy (p : Char → Bool) (cs : List Char) : List Char :=
  dropEndWhile p (cs.dropWhile p)

/-- The text before the first separator, and the text after it if there is one. -/
def cutAt (sep : Char) : List Char → List Char × Option (List Char)
  | [] => ([], none)
  | c :: cs =>
    if c = sep then ([], some cs)
    else ((c :: (cutAt sep cs).1), (cutAt sep cs).2)

/-- The text up to and including the last separator, and the text after it. -/
def cutAtLast (sep : Char) (cs : List Char) : List Char × List Char :=
  ((cs.reverse.dropWhile (· != sep)).reverse, (cs.reverse.takeWhile (· != sep)).reverse)

theorem cutAtLast_append (sep : Char) (cs : List Char) :
    (cutAtLast sep cs).1 ++ (cutAtLast sep cs).2 = cs := by
  rw [cutAtLast, ← List.reverse_append, List.takeWhile_append_dropWhile, List.reverse_reverse]

def eraseFirst (old : List Char) : List Char → List Char
  | [] => []
  | c :: cs =>
    match dropFront? old (c :: cs) with
    | some rest => rest
    | none => c :: eraseFirst old cs

/-- Whether the code point lies in one of the closed ranges, listed in increasing order. -/
def inRanges (ranges : Array (Nat × Nat)) (code : Nat) : Bool :=
  go 0 ranges.size ranges.size
where
  /-- Bisects the ranges with indices from `lo` up to `hi`. -/
  go (lo hi : Nat) : Nat → Bool
    | 0 => false
    | steps + 1 =>
      if lo < hi then
        let mid := (lo + hi) / 2
        match ranges[mid]? with
        | none => false
        | some (first, last) =>
          if code < first then go lo mid steps
          else if last < code then go (mid + 1) hi steps
          else true
      else false

end RegistryBlock.Text
