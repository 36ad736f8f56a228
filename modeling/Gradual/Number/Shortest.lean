import Gradual.Number.Double

/-!
# Shortest decimals: the fewest digits that read back as the same double

The reals that round to a double form an interval around it, with its ends exactly when the mantissa is even. For one, two and
up to seventeen digits the two neighbours of the double on the grid of that many digits are tried in exact arithmetic; the
first grid with a neighbour in the interval wins, of two neighbours the nearer one, and the upper one when both are as near.
-/

namespace Gradual

/-- A decimal without trailing zeros: its digits, and the number of them that stand before the point. -/
structure Decimal where
  digits : List Char
  point : Int

namespace Decimal

/-- The number of decimal digits of a number. -/
def digitCount (n : Nat) : Nat := (Nat.toDigits 10 n).length

/-- The `k` with `10 ^ (k - 1) ≤ n / d < 10 ^ k`, for `n` and `d` above zero. -/
def leadingPlace (n d : Nat) : Int :=
  if d ≤ n then digitCount (n / d) else 1 - (digitCount ((d + n - 1) / n - 1) : Int)

/-- A ratio divided by a power of ten, as a ratio. -/
def overPowerOfTen (n d : Nat) (k : Int) : Nat × Nat :=
  if 0 ≤ k then (n, d * Nat.pow 10 k.toNat) else (n * Nat.pow 10 (-k).toNat, d)

/-- The interval of reals that round to a double, each bound a numerator over one denominator, and whether the bounds belong. -/
structure Interval where
  low : Nat
  value : Nat
  high : Nat
  denominator : Nat
  closed : Bool

/-- The interval of the double `m * 2 ^ e`: half a step to either side, below a power of two half of the smaller step. -/
def Interval.ofDouble (m : Nat) (e : Int) : Interval :=
  let below := if m = Nat.pow 2 52 ∧ Double.leastExponent < e then 1 else 2
  let (u, d) := Double.scaled 1 1 (e - 2)
  ⟨(4 * m - below) * u, 4 * m * u, (4 * m + 2) * u, d, m % 2 == 0⟩

/-- Whether `c * 10 ^ k` lies in the interval. -/
def Interval.contains (i : Interval) (c : Nat) (k : Int) : Bool :=
  let (l, d) := overPowerOfTen i.low i.denominator k
  let (h, _) := overPowerOfTen i.high i.denominator k
  if i.closed then l ≤ c * d && c * d ≤ h else l < c * d && c * d < h

/-- The neighbour of the value on the grid of step `10 ^ k` that lies in the interval: the nearer of two, the upper at a tie. -/
def Interval.neighbour? (i : Interval) (k : Int) : Option Nat :=
  let (v, d) := overPowerOfTen i.value i.denominator k
  let lower := v / d
  match i.contains lower k, i.contains (lower + 1) k with
  | true, true => some (if 2 * (v % d) < d then lower else lower + 1)
  | true, false => some lower
  | false, true => some (lower + 1)
  | false, false => none

/-- Digits without the zeros at their end. -/
def trimZeros (ds : List Char) : List Char := (ds.reverse.dropWhile (· == '0')).reverse

/-- The decimal `c * 10 ^ k`. -/
def ofGrid (c : Nat) (k : Int) : Decimal :=
  let ds := Nat.toDigits 10 c
  ⟨trimZeros ds, ds.length + k⟩

/-- The shortest decimal for a double `m * 2 ^ e` above zero: the first grid with a hit, from one digit on. -/
def shortest (m : Nat) (e : Int) : Decimal :=
  let i := Interval.ofDouble m e
  let place := leadingPlace i.value i.denominator
  let hit? (n : Nat) : Option Decimal := (i.neighbour? (place - n)).map (ofGrid · (place - n))
  ((List.range' 1 17).findSome? hit?).getD ⟨[], 0⟩

end Decimal

/-- How a double is laid out: whether a whole number ends in `.0`, and which numbers take an exponent. -/
structure NumberLayout where
  wholeMark : Bool
  exponentFrom : Option Int
  exponentBelow : Option Int

namespace NumberLayout

/-- Numbers in messages: never an exponent, and whole numbers without a point. -/
def plain : NumberLayout := ⟨false, none, none⟩

/-- Numbers in dumps: a point in every number, and an exponent from `10 ^ 16` on and below `10 ^ -4`. -/
def dump : NumberLayout := ⟨true, some 17, some (-3)⟩

/-- A decimal written with its point and without an exponent. -/
def positional (layout : NumberLayout) (d : Decimal) : List Char :=
  let n := d.digits.length
  if d.point ≤ 0 then '0' :: '.' :: (List.replicate (-d.point).toNat '0' ++ d.digits)
  else if d.point.toNat < n then d.digits.take d.point.toNat ++ '.' :: d.digits.drop d.point.toNat
  else d.digits ++ List.replicate (d.point.toNat - n) '0' ++ (if layout.wholeMark then ['.', '0'] else [])

/-- A decimal written as one digit, the others after a point, and a power of ten. -/
def scientific (d : Decimal) : List Char :=
  let mantissa := match d.digits with
    | [] => []
    | [c] => [c]
    | c :: cs => c :: '.' :: cs
  mantissa ++ 'e' :: (toString (d.point - 1)).toList

/-- Whether a decimal takes an exponent. -/
def takesExponent (layout : NumberLayout) (d : Decimal) : Bool :=
  layout.exponentFrom.any (· ≤ d.point) || layout.exponentBelow.any (d.point < ·)

/-- The text of a double. -/
def text (layout : NumberLayout) : Double → String
  | .infinite => "inf"
  | .finite 0 _ => if layout.wholeMark then "0.0" else "0"
  | .finite m e =>
    let d := Decimal.shortest m e
    String.ofList (if layout.takesExponent d then scientific d else layout.positional d)

end NumberLayout

end Gradual
