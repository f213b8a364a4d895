import RegistryBlock.Text.Basic

/-!
# Paths as text

A path is written with slashes. `key` is the form under which a project file is known: backslashes
become slashes and leading `./` is dropped. `normalize` walks the segments of a path, drops the
empty ones and `.`, and lets `..` undo the segment before it; `join` does so below a base and
writes the place it starts from as the empty path.
-/

namespace RegistryBlock.Path

abbrev Segment := List Char

/-- The segment that stays where it is. -/
def here : Segment := ['.']

/-- The segment that climbs to the parent. -/
def up : Segment := ['.', '.']

/-- The path without its leading `./`, however often it is repeated. -/
def dropHere : List Char → List Char
  | '.' :: '/' :: cs => dropHere cs
  | cs => cs

/-- The slash for a backslash, and any other character for itself. -/
def slash (c : Char) : Char := if c = '\\' then '/' else c

def key (path : String) : String :=
  String.ofList (dropHere (path.toList.map slash))

def segments (cs : List Char) : List Segment := Text.split '/' cs

def ofSegments (segs : List Segment) : List Char := Text.join '/' segs

def baseName (cs : List Char) : List Char := (Text.cutAtLast '/' cs).2

/-- Everything before the last segment, without slashes at its end unless it is all slashes. -/
def directory (cs : List Char) : List Char :=
  let front := (Text.cutAtLast '/' cs).1
  if front.all (· == '/') then front else Text.dropEndWhile (· == '/') front

/-- A base name cut before its last dot. Dots at the beginning of the name do not count. -/
def splitExtension (name : List Char) : List Char × List Char :=
  let dots := name.takeWhile (· == '.')
  let body := name.dropWhile (· == '.')
  if body.contains '.' then
    let cut := Text.cutAtLast '.' body
    (dots ++ cut.1.dropLast, '.' :: cut.2)
  else (name, [])

theorem splitExtension_append (name : List Char) :
    (splitExtension name).1 ++ (splitExtension name).2 = name := by
  simp only [splitExtension]
  split
  · next h =>
    have hcut := Text.cutAtLast_append '.' (name.dropWhile (· == '.'))
    have hlast : ∃ front, (Text.cutAtLast '.' (name.dropWhile (· == '.'))).1 = front ++ ['.'] := by
      simp only [Text.cutAtLast]
      have hmem : '.' ∈ (name.dropWhile (· == '.')).reverse := by
        simpa using List.contains_iff_mem.1 h
      generalize (name.dropWhile (· == '.')).reverse = l at hmem ⊢
      induction l with
      | nil => simp at hmem
      | cons c l ih =>
        by_cases hc : c = '.'
        · exact ⟨l.reverse, by simp [hc]⟩
        · have : '.' ∈ l := by
            rcases List.mem_cons.1 hmem with h | h
            · exact absurd h.symm hc
            · exact h
          simpa [List.dropWhile_cons, hc] using ih this
    obtain ⟨front, hfront⟩ := hlast
    rw [hfront] at hcut ⊢
    simp only [List.dropLast_concat]
    rw [List.append_assoc, ← List.singleton_append, ← List.append_assoc front, hcut,
      List.takeWhile_append_dropWhile]
  · simp

/-- The part of a path's last segment from its last dot on. -/
def extension (cs : List Char) : List Char := (splitExtension (baseName cs)).2

def stem (cs : List Char) : List Char := (splitExtension (baseName cs)).1

/-- Takes one more segment on a walk, whose segments are held last first. A climb undoes the last
step; above the start it is kept, unless the walk started at the root. -/
def step (rooted : Bool) (walk : List Segment) (seg : Segment) : List Segment :=
  if seg = [] ∨ seg = here then walk
  else if seg ≠ up then seg :: walk
  else
    match walk with
    | [] => if rooted then [] else [up]
    | last :: before => if last = up then up :: walk else before

/-- The segments that remain of a walk along the given ones. -/
def walk (rooted : Bool) (segs : List Segment) : List Segment :=
  (segs.foldl (step rooted) []).reverse

/-- The slashes that open a path: none, one, or exactly two. -/
def opening : List Char → List Char
  | '/' :: '/' :: '/' :: _ => ['/']
  | '/' :: '/' :: _ => ['/', '/']
  | '/' :: _ => ['/']
  | _ => []

/-- The path that a walk along the segments leads to; the place it starts from is written `.`. -/
def normalize (cs : List Char) : List Char :=
  let start := opening cs
  match start ++ ofSegments (walk (start != []) (segments cs)) with
  | [] => here
  | path => path

/-- Puts a tail below a base, unless the tail starts at the root. -/
def attach (base tail : List Char) : List Char :=
  match tail with
  | '/' :: _ => tail
  | _ => if base.getLast? = some '/' then base ++ tail else base ++ '/' :: tail

/-- The normal path of a tail seen from a base. The base is the project itself when it is empty,
and so is the result when it leads back there. -/
def join (base tail : List Char) : List Char :=
  match (if base = [] then tail else attach base tail) with
  | [] => []
  | path => if normalize path = here then [] else normalize path

end RegistryBlock.Path
