import LayeredConfig.Decimal.Binary64

/-!
# Shortest decimals

The shortest decimal that reads back as a double-precision number is the multiple of the greatest
power of ten that lies in the interval of numbers that round to it. Of two such multiples the
nearer one counts, and of two equally near ones the even one.
-/

namespace LayeredConfig

namespace Binary64

/-! ## Multiples of a power of ten -/

/-- The interval that rounds to a number, in quarters of its last binary place. Below a power of
two the neighbour is only half as far. -/
def low (x : Binary64) : Nat :=
  if x.significand = Nat.pow 2 52 ∧ minExponent < x.exponent then 4 * x.significand - 1
  else 4 * x.significand - 2

def high (x : Binary64) : Nat := 4 * x.significand + 2

/-- What a quarter of the last binary place is worth, on a scale where `10 ^ power` is worth
`gridUnit x power`. -/
def quarterUnit (x : Binary64) (power : Int) : Nat :=
  Nat.pow 2 (x.exponent - 2).toNat * Nat.pow 10 (-power).toNat

def gridUnit (x : Binary64) (power : Int) : Nat :=
  Nat.pow 10 power.toNat * Nat.pow 2 (2 - x.exponent).toNat

/-- Whether `count * 10 ^ power` rounds to the number. -/
def readsBack (x : Binary64) (power : Int) (count : Nat) : Bool :=
  let point := count * x.gridUnit power
  let lower := x.low * x.quarterUnit power
  let upper := x.high * x.quarterUnit power
  if x.significand % 2 = 0 then lower ≤ point && point ≤ upper
  else lower < point && point < upper

/-- The multiple of `10 ^ power` next to the number that rounds to it, if there is one. -/
def multiple? (x : Binary64) (power : Int) : Option Nat :=
  let value := 4 * x.significand * x.quarterUnit power
  let unit := x.gridUnit power
  let below := value / unit
  match x.readsBack power below, x.readsBack power (below + 1) with
  | true, true => some (Binary64.roundQuotient value unit)
  | true, false => some below
  | false, true => some (below + 1)
  | false, false => none

/-- The shortest decimal of a number that is not zero. -/
def shortest (x : Binary64) : Decimal :=
  let found := (List.range 700).findSome? fun (n : Nat) =>
    let power : Int := 330 - (n : Int)
    (x.multiple? power).map fun count => (⟨count, power⟩ : Decimal)
  found.getD ⟨0, 0⟩

end Binary64

/-! ## Text -/

namespace Decimal

/-- A decimal with digits `ds` and a point in front of the last `-exponent` of them; positional from
0.00001 up to 16 digits before the point, and with an exponent outside that range. -/
def text (d : Decimal) : String :=
  let ds := Nat.toDigits 10 d.coefficient
  let point : Int := d.magnitude
  let zeros (n : Int) : List Char := List.replicate n.toNat '0'
  String.ofList <|
    if 0 ≤ d.exponent ∧ point ≤ 16 then ds ++ zeros d.exponent ++ ['.', '0']
    else if 0 < point ∧ point ≤ 16 then ds.take point.toNat ++ '.' :: ds.drop point.toNat
    else if -5 < point ∧ point ≤ 0 then '0' :: '.' :: (zeros (-point) ++ ds)
    else
      let exponent := 'e' :: (toString (point - 1)).toList
      match ds with
      | [d] => d :: exponent
      | d :: rest => d :: '.' :: (rest ++ exponent)
      | [] => exponent

end Decimal

/-- The text of a double-precision number. -/
def Binary64.text (x : Binary64) : String :=
  if x.significand = 0 then "0.0" else x.shortest.text

end LayeredConfig
