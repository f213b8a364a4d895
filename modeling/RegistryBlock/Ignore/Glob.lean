import RegistryBlock.Text.Basic

/-!
# Glob patterns

In a pattern `*` stands for any text, `?` for any character, and brackets for one character of a
set; slashes and line feeds are characters like any other. A set lists characters and ranges, and
`!` at its front turns it round. A bracket that is never closed stands for itself.
-/

namespace RegistryBlock.Glob

inductive Piece where
  | star
  | one
  | char (c : Char)
  /-- A character in one of the closed ranges, or in none of them. -/
  | set (negated : Bool) (ranges : List (Char × Char))
deriving DecidableEq, Repr

/-- Whether the piece stands for the character. A star stands for whole texts. -/
def Piece.admits (piece : Piece) (c : Char) : Bool :=
  match piece with
  | star => false
  | one => true
  | char d => c = d
  | set negated ranges =>
    (ranges.any fun (first, last) => first ≤ c && c ≤ last) != negated

/-! ### Sets -/

/-- The text up to the next hyphen behind the first `skip` characters, and the text after it. -/
def cutAtHyphen (skip : Nat) (cs : List Char) : List Char × Option (List Char) :=
  let (before, after) := Text.cutAt '-' (cs.drop skip)
  (cs.take skip ++ before, after)

/-- The chunks of a set between the hyphens of its ranges. A range takes a character on either
side, so the hyphen after a range begins at the third character behind it. -/
def chunks (skip : Nat) (cs : List Char) : Nat → List (List Char)
  | 0 => [cs]
  | steps + 1 =>
    match cutAtHyphen skip cs with
    | (chunk, none) => [chunk]
    | (chunk, some []) => [chunk ++ ['-']]
    | (chunk, some rest) => chunk :: chunks 2 rest steps

/-- Joins neighbours whose range would be empty, without the two ends of the range. -/
def dropEmptyRanges : List (List Char) → List (List Char)
  | [] => []
  | chunk :: rest =>
    match dropEmptyRanges rest with
    | [] => [chunk]
    | next :: more =>
      match chunk.getLast?, next.head? with
      | some last, some first =>
        if first < last then (chunk.dropLast ++ next.tail) :: more else chunk :: next :: more
      | _, _ => chunk :: next :: more

def singles (chunk : List Char) : List (Char × Char) := chunk.map fun c => (c, c)

/-- The ranges of a set from its chunks. A hyphen with nothing before it is a character. -/
def ranges (chunk : List Char) : List (List Char) → List (Char × Char)
  | [] => singles chunk
  | next :: more =>
    match chunk.getLast?, next with
    | some last, first :: tail => singles chunk.dropLast ++ (last, first) :: ranges tail more
    | _, _ => singles chunk ++ ('-', '-') :: ranges next more

def setOf (cs : List Char) : Piece :=
  let skip := if cs.head? = some '!' then 2 else 1
  match dropEmptyRanges (chunks skip cs cs.length) with
  | ('!' :: chunk) :: more => .set true (ranges chunk more)
  | chunk :: more => .set false (ranges chunk more)
  | [] => .set false []

/-- The text of a set and what follows it. The closing bracket cannot be the first character. -/
def bracketed? (cs : List Char) : Option (List Char × List Char) :=
  let front :=
    match cs with
    | '!' :: ']' :: _ => 2
    | '!' :: _ => 1
    | ']' :: _ => 1
    | _ => 0
  match Text.cutAt ']' (cs.drop front) with
  | (inner, some rest) => some (cs.take front ++ inner, rest)
  | (_, none) => none

theorem length_of_bracketed?_eq_some {cs inner rest : List Char}
    (h : bracketed? cs = some (inner, rest)) : rest.length < cs.length + 1 := by
  have hcut : ∀ (sep : Char) (l before after : List Char),
      Text.cutAt sep l = (before, some after) → after.length < l.length + 1 := by
    intro sep l
    induction l with
    | nil => simp [Text.cutAt]
    | cons c l ih =>
      intro before after h
      simp only [Text.cutAt] at h
      split at h
      · cases h
        simp only [List.length_cons]
        omega
      · cases hl : Text.cutAt sep l with
        | mk fst snd =>
          rw [hl] at h
          cases h
          have := ih fst after hl
          simp only [List.length_cons]
          omega
  simp only [bracketed?] at h
  split at h
  · next hc =>
    cases h
    have h1 := hcut _ _ _ _ hc
    rw [List.length_drop] at h1
    omega
  · cases h

/-! ### Patterns -/

def parse (cs : List Char) : List Piece :=
  match cs with
  | [] => []
  | '*' :: rest => .star :: parse rest
  | '?' :: rest => .one :: parse rest
  | '[' :: rest =>
    match _h : bracketed? rest with
    | some (inner, after) => setOf inner :: parse after
    | none => .char '[' :: parse rest
  | c :: rest => .char c :: parse rest
termination_by cs.length
decreasing_by
  all_goals first
    | (simp only [List.length_cons]; omega)
    | exact length_of_bracketed?_eq_some _h

def ends : List Char → List (List Char)
  | [] => [[]]
  | c :: cs => (c :: cs) :: ends cs

def accepts : List Piece → List Char → Bool
  | [], cs => cs.isEmpty
  | .star :: pieces, cs => (ends cs).any (accepts pieces)
  | piece :: pieces, cs =>
    match cs with
    | [] => false
    | c :: rest => piece.admits c && accepts pieces rest

def matchesText (pattern cs : List Char) : Bool := accepts (parse pattern) cs

end RegistryBlock.Glob
