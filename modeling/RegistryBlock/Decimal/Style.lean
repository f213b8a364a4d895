import RegistryBlock.Decimal.Binary

/-!
# Written decimals

How a floating point number is written down: positionally when its point falls near its digits,
and with an exponent of at least two digits otherwise.
-/

namespace RegistryBlock.Decimal

/-- The choices of a way to write numbers. The point of a number is the power of ten just above
its first digit. -/
structure Style where
  /-- The least point that is written positionally. -/
  leastPoint : Int := -3
  /-- The greatest point that is written positionally. -/
  greatestPoint : Int := 16
  /-- The text for a value that is no number. -/
  notANumber : String := "nan"
  /-- The text for positive infinity. -/
  infinity : String := "inf"

/-- A number with its digits around the point. -/
def positional (digits : List Char) (point : Int) : List Char :=
  if point ≤ 0 then '0' :: '.' :: List.replicate (-point).toNat '0' ++ digits
  else if digits.length ≤ point.toNat then
    digits ++ List.replicate (point.toNat - digits.length) '0' ++ ['.', '0']
  else digits.take point.toNat ++ '.' :: digits.drop point.toNat

def withExponent (digits : List Char) (point : Int) : List Char :=
  let exponent := point - 1
  let power := digitChars exponent.natAbs
  digits.take 1 ++ (if digits.length ≤ 1 then [] else '.' :: digits.drop 1) ++
    'e' :: (if exponent < 0 then '-' else '+') ::
    (if power.length < 2 then '0' :: power else power)

def Style.render (style : Style) (x : Float) : String :=
  let unsigned : List Char :=
    match magnitude x with
    | .notANumber => style.notANumber.toList
    | .infinity => style.infinity.toList
    | .zero => ['0', '.', '0']
    | .finite target =>
      let d := target.shortest
      let digits := digitChars d.digits
      let point := digits.length + d.exponent
      if style.leastPoint ≤ point ∧ point ≤ style.greatestPoint then positional digits point
      else withExponent digits point
  match magnitude x with
  | .notANumber => String.ofList unsigned
  | _ => String.ofList (if isNegative x then '-' :: unsigned else unsigned)

end RegistryBlock.Decimal
