/-!
# Blank characters

A character is blank if Unicode gives it the property White_Space. Settings are trimmed of blank characters, and
dates may hold them between their fields.
-/

namespace Gatehouse

/-- The property White_Space of Unicode. -/
def isBlank (c : Char) : Bool :=
  let n := c.toNat
  (0x09 ≤ n && n ≤ 0x0D) || n == 0x20 || n == 0x85 || n == 0xA0 || n == 0x1680 || (0x2000 ≤ n && n ≤ 0x200A) ||
    n == 0x2028 || n == 0x2029 || n == 0x202F || n == 0x205F || n == 0x3000

/-- A text without the blank characters at its start. -/
def trimStart (cs : List Char) : List Char := cs.dropWhile isBlank

/-- A text without the blank characters at its ends. -/
def trim (cs : List Char) : List Char := ((trimStart cs).reverse.dropWhile isBlank).reverse

/-- A letter of the ASCII alphabet in lower case; any other character as it is. -/
def asciiLower (c : Char) : Char := if 'A' ≤ c ∧ c ≤ 'Z' then Char.ofNat (c.toNat + 32) else c

end Gatehouse
