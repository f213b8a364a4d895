/-!
# The shortest decimal of a binary number

A positive binary number `m · 2 ^ q` stands for every real that rounds to it: an interval whose
ends belong to it when `m` is even. `shortest` finds the decimal with the fewest digits in that
interval, and of those the one nearest to the number.
-/

namespace RegistryBlock.Decimal

/-- The number `digits · 10 ^ exponent`. -/
structure Scientific where
  digits : Nat
  exponent : Int
deriving DecidableEq, Repr

/-- A positive binary number with the distance to the ends of its interval, all as multiples of
one positive unit `1 / scale`. -/
structure Target where
  value : Nat
  below : Nat
  above : Nat
  scale : Nat
  closed : Bool

namespace Target

/-- The number `m · 2 ^ q`. The gap below a power of two is half as wide when `narrow`. -/
def ofBinary (m : Nat) (q : Int) (narrow : Bool) : Target :=
  let up := Nat.pow 2 q.toNat
  { value := 4 * m * up
    below := (if narrow then 1 else 2) * up
    above := 2 * up
    scale := 4 * Nat.pow 2 (-q).toNat
    closed := m % 2 = 0 }

/-- Whether the decimal rounds to the number. -/
def holds (t : Target) (d : Scientific) : Bool :=
  let x := d.digits * Nat.pow 10 d.exponent.toNat * t.scale
  let unit := Nat.pow 10 (-d.exponent).toNat
  let low := (t.value - t.below) * unit
  let high := (t.value + t.above) * unit
  if t.closed then low ≤ x && x ≤ high else low < x && x < high

/-- The number of units of the grid `10 ^ exponent` below the number, rounded down, with the
remainder and the width of the grid. -/
def onGrid (t : Target) (exponent : Int) : Nat × Nat × Nat :=
  let x := t.value * Nat.pow 10 (-exponent).toNat
  let width := t.scale * Nat.pow 10 exponent.toNat
  (x / width, x % width, width)

/-- The member of a grid that rounds to the number and is nearest to it; of two that are equally
near, the even one. -/
def nearest? (t : Target) (exponent : Int) : Option Scientific :=
  let (digits, rest, width) := t.onGrid exponent
  let low : Scientific := ⟨digits, exponent⟩
  let high : Scientific := ⟨digits + 1, exponent⟩
  match t.holds low, t.holds high with
  | true, true =>
    if 2 * rest < width ∨ (2 * rest = width ∧ digits % 2 = 0) then some low else some high
  | true, false => some low
  | false, true => some high
  | false, false => none

/-- The first grid with a member that rounds to the number, starting from the coarsest. -/
def search (t : Target) (exponent : Int) : Nat → Scientific
  | 0 => ⟨(t.onGrid exponent).1, exponent⟩
  | steps + 1 =>
    match t.nearest? exponent with
    | some d => d
    | none => t.search (exponent - 1) steps

end Target

def digitChars (n : Nat) : List Char := Nat.toDigits 10 n

def Scientific.trim (d : Scientific) : Scientific :=
  go d (digitChars d.digits).length
where
  /-- Drops at most the given number of zeros. -/
  go (d : Scientific) : Nat → Scientific
    | 0 => d
    | steps + 1 =>
      if d.digits % 10 = 0 ∧ d.digits ≠ 0 then go ⟨d.digits / 10, d.exponent + 1⟩ steps else d

def Target.magnitude (t : Target) : Int :=
  let whole := t.value / t.scale
  if whole ≠ 0 then (digitChars whole).length
  else
    let inverse := (t.scale - 1) / t.value
    if t.value = 0 then 0 else 1 - (digitChars inverse).length

/-- The decimal with the fewest digits that rounds to the number. -/
def Target.shortest (t : Target) : Scientific :=
  (t.search (t.magnitude - 1) 20).trim

end RegistryBlock.Decimal
