/-!
# Doubles: the non-negative numbers of binary64

A number literal denotes the double nearest to its decimal value, a tie going to the even mantissa. Literals carry no sign, so
a value is a mantissa below `2 ^ 53` times a power of two, or infinity when the literal is too large. Each value has one form:
the exponent is `-1074`, or the mantissa has all of its 53 bits.
-/

namespace Gradual

/-- A non-negative double: `mantissa * 2 ^ exponent`, or infinity. -/
inductive Double where
  | finite (mantissa : Nat) (exponent : Int)
  | infinite
  deriving DecidableEq

namespace Double

/-- The least exponent: the mantissa of a smaller value loses its leading bits instead. -/
def leastExponent : Int := -1074

/-- The greatest exponent of a finite value. -/
def greatestExponent : Int := 971

/-- Zero. -/
def zero : Double := .finite 0 leastExponent

/-- A ratio times a power of two, as a ratio. -/
def scaled (n d : Nat) (e : Int) : Nat × Nat :=
  if 0 ≤ e then (n * Nat.pow 2 e.toNat, d) else (n, d * Nat.pow 2 (-e).toNat)

/-- The ratio `n / d` rounded to the nearest whole number, a tie going to the even one. -/
def nearestEven (n d : Nat) : Nat :=
  let q := n / d
  let r := n % d
  if 2 * r < d then q else if d < 2 * r then q + 1 else if q % 2 = 0 then q else q + 1

/-- The greatest `k` with `2 ^ k ≤ n / d`, for `n` and `d` above zero. -/
def floorLog2 (n d : Nat) : Int :=
  let k : Int := (n.log2 : Int) - (d.log2 : Int)
  let (n', d') := scaled n d (-k)
  if d' ≤ n' then k else k - 1

/-- The double nearest to `n / d`, a tie going to the even mantissa. -/
def ofRatio (n d : Nat) : Double :=
  if n = 0 then zero
  else
    let e := max leastExponent (floorLog2 n d - 52)
    let (n', d') := scaled n d (-e)
    let m := nearestEven n' d'
    let (m, e) := if m = Nat.pow 2 53 then (Nat.pow 2 52, e + 1) else (m, e)
    if greatestExponent < e then .infinite else .finite m e

/-- The number that a run of decimal digits denotes. -/
def digitsValue (ds : List Char) : Nat := ds.foldl (fun n c => 10 * n + (c.toNat - '0'.toNat)) 0

/-- The double that a literal denotes: the digits before its point, and those after it. -/
def ofDecimal (whole fraction : List Char) : Double :=
  ofRatio (digitsValue (whole ++ fraction)) (Nat.pow 10 fraction.length)

end Double

end Gradual
