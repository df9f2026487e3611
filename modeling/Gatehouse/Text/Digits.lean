/-!
# Decimal digits

Natural numbers and integers are written without leading zeros, an integer below zero with a minus sign. Padded
forms are for the fixed-width fields of dates and fractions.
-/

namespace Gatehouse.Digits

/-- The character of a digit. -/
def digitChar (d : Nat) : Char := Char.ofNat (0x30 + d % 10)

/-- The decimal digits of a number, most significant first; a single zero for zero. -/
def ofNat (n : Nat) : List Char :=
  if n < 10 then [digitChar n] else ofNat (n / 10) ++ [digitChar n]

/-- The decimal text of an integer. -/
def ofInt : Int → List Char
  | .ofNat n => ofNat n
  | .negSucc n => '-' :: ofNat (n + 1)

/-- The last `width` digits of a number, with leading zeros. -/
def padded : (width : Nat) → (n : Nat) → List Char
  | 0, _ => []
  | width + 1, n => padded width (n / 10) ++ [digitChar n]

/-- Whether a character is one of the ten ASCII digits. -/
def isDigit (c : Char) : Bool := '0' ≤ c && c ≤ '9'

/-- The value of an ASCII digit. -/
def value? (c : Char) : Option Nat := if isDigit c then some (c.toNat - 0x30) else none

/-- The number that a list of digits stands for. -/
def toNat (cs : List Char) : Nat := cs.foldl (fun n c => 10 * n + (c.toNat - 0x30)) 0

/-- The text of a natural number. -/
def natText (n : Nat) : String := String.ofList (ofNat n)

/-- The text of an integer. -/
def intText (n : Int) : String := String.ofList (ofInt n)

end Gatehouse.Digits
