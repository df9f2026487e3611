import Gatehouse.Text.Digits

/-!
# Binary floating point numbers as decimals

A number of the binary64 format is kept as its 64 bits, so that two numbers are equal exactly when they are the same
number with the same sign. This module decodes the bits, finds the shortest decimal that reads back, and holds the
rule by which such decimals are written.
-/

namespace Gatehouse

/-- A number of the binary64 format. -/
structure Binary64 where
  bits : UInt64
deriving DecidableEq, Inhabited

namespace Binary64

/-- The bits of a machine number. -/
def ofFloat (x : Float) : Binary64 := ⟨x.toBits⟩

/-- The machine number with these bits. -/
def toFloat (x : Binary64) : Float := Float.ofBits x.bits

/-- Whether the sign bit is set. -/
def isNegative (x : Binary64) : Bool := x.bits.toNat / 9223372036854775808 = 1

/-- The eleven bits of the exponent. -/
def exponentField (x : Binary64) : Nat := x.bits.toNat / 4503599627370496 % 2048

/-- The 52 bits of the fraction. -/
def fractionField (x : Binary64) : Nat := x.bits.toNat % 4503599627370496

/-- The magnitude as `m * 2 ^ q`. -/
def scaled (x : Binary64) : Nat × Int :=
  if x.exponentField = 0 then (x.fractionField, -1074)
  else (x.fractionField + 4503599627370496, (x.exponentField : Int) - 1075)

/-! ## The shortest decimal that reads back -/

/-- An interval of numbers over a common denominator, with or without its ends. -/
structure Interval where
  low : Nat
  value : Nat
  high : Nat
  denominator : Nat
  closed : Bool

/-- The numbers that round to a finite nonzero magnitude. Below a power of two the gap to the next smaller magnitude
is half as wide. An end, half way to the neighbour, rounds to the even one. -/
def rounding (x : Binary64) : Interval :=
  let (m, q) := x.scaled
  let narrow := x.fractionField = 0 ∧ 1 < x.exponentField
  let up := Nat.pow 2 q.toNat
  let down := Nat.pow 2 (-q).toNat
  { low := (4 * m - (if narrow then 1 else 2)) * up
    value := 4 * m * up
    high := (4 * m + 2) * up
    denominator := 4 * down
    closed := m % 2 = 0 }

/-- Whether `n / d` lies in an interval. -/
def Interval.contains (i : Interval) (n d : Nat) : Bool :=
  let low := i.low * d
  let high := i.high * d
  let point := n * i.denominator
  if i.closed then low ≤ point && point ≤ high else low < point && point < high

/-- The multiple of `10 ^ e` in the interval that is nearest to its value, if one of the two neighbours of the value
lies in it; of two at the same distance the even one. -/
def Interval.nearest? (i : Interval) (e : Int) : Option Nat :=
  let num := i.value * Nat.pow 10 (-e).toNat
  let den := i.denominator * Nat.pow 10 e.toNat
  let floor := num / den
  let rest := 2 * (num % den)
  let inside (n : Nat) : Bool := i.contains (n * Nat.pow 10 e.toNat) (Nat.pow 10 (-e).toNat)
  let lower := inside floor
  let upper := inside (floor + 1)
  if lower && upper then
    some (if rest < den then floor else if den < rest then floor + 1 else if floor % 2 = 0 then floor else floor + 1)
  else if lower then some floor
  else if upper then some (floor + 1)
  else none

/-- Searches the grids `10 ^ e`, `10 ^ (e - 1)`, … for the first that has a point in the interval. -/
def Interval.search (i : Interval) : (fuel : Nat) → (e : Int) → Nat × Int
  | 0, e => (i.value * Nat.pow 10 (-e).toNat / (i.denominator * Nat.pow 10 e.toNat), e)
  | fuel + 1, e => match i.nearest? e with
    | some n => if n = 0 then i.search fuel (e - 1) else (n, e)
    | none => i.search fuel (e - 1)

/-- The digits and the exponent of ten of the shortest decimal that reads back, for a finite nonzero number. -/
def shortest (x : Binary64) : Nat × Int := x.rounding.search 660 310

/-! ## The written form -/

/-- How a decimal is written. A number of at least `10 ^ positional` or below `10 ^ small` has an exponent, which
follows the letter `e` and carries its sign; a whole number in positional form ends in `.0`. -/
structure Style where
  positional : Int
  small : Int

/-- Numbers are written positionally from `0.00001` up to below `10 ^ 16`. -/
def json : Style := ⟨16, -5⟩

/-- Removes the zeros at the end of a list of digits. -/
def trimZeros (ds : List Char) : List Char := (ds.reverse.dropWhile (· == '0')).reverse

/-- The text of `digits * 10 ^ e`. -/
def Style.write (style : Style) (digits : Nat) (e : Int) : List Char :=
  let ds := trimZeros (Digits.ofNat digits)
  let point : Int := (Digits.ofNat digits).length + e
  if style.small < point ∧ point ≤ 0 then '0' :: '.' :: (List.replicate (-point).toNat '0' ++ ds)
  else if 0 < point ∧ point ≤ style.positional then
    let whole := point.toNat
    if ds.length ≤ whole then ds ++ List.replicate (whole - ds.length) '0' ++ ['.', '0']
    else ds.take whole ++ '.' :: ds.drop whole
  else
    let power := point - 1
    ds.take 1 ++ (if ds.length ≤ 1 then [] else '.' :: ds.drop 1) ++
      'e' :: (if power < 0 then '-' else '+') :: Digits.ofNat power.natAbs

/-- The text of a finite number. -/
def chars (x : Binary64) : List Char :=
  let magnitude :=
    if x.exponentField = 0 ∧ x.fractionField = 0 then ['0', '.', '0']
    else
      let (digits, e) := x.shortest
      json.write digits e
  if x.isNegative then '-' :: magnitude else magnitude

end Binary64

end Gatehouse
