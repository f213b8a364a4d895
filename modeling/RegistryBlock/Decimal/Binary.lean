import RegistryBlock.Decimal.Shortest

/-!
# Binary floating point numbers

The parts of a 64-bit floating point number, and the number nearest to a decimal.
-/

namespace RegistryBlock.Decimal

/-- What a floating point number is, apart from its sign. -/
inductive Magnitude where
  | notANumber
  | infinity
  | zero
  | finite (target : Target)

def isNegative (x : Float) : Bool := x.toBits >>> 63 != 0

def magnitude (x : Float) : Magnitude :=
  let bits := x.toBits.toNat
  let exponent : Nat := bits / Nat.pow 2 52 % Nat.pow 2 11
  let fraction : Nat := bits % Nat.pow 2 52
  if exponent = 2047 then
    if fraction = 0 then .infinity else .notANumber
  else if exponent = 0 then
    if fraction = 0 then .zero else .finite (.ofBinary fraction (-1074) false)
  else
    .finite (.ofBinary (Nat.pow 2 52 + fraction) ((exponent : Int) - 1075)
      (fraction = 0 && exponent != 1))

/-- The floating point number nearest to a decimal. Numbers far outside the range are decided by
their order of magnitude alone. -/
def Scientific.toFloat (d : Scientific) : Float :=
  let order := (digitChars d.digits).length + d.exponent
  if d.digits = 0 then 0.0
  else if order > 310 then 1.0 / 0.0
  else if order < -330 then 0.0
  else if d.exponent < 0 then Float.ofScientific d.digits true (-d.exponent).toNat
  else Float.ofScientific (d.digits * Nat.pow 10 d.exponent.toNat) false 0

end RegistryBlock.Decimal
