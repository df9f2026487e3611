import Gatehouse.Json.Value
import Gatehouse.Text.Bytes

/-!
# Writing JSON

The written form is compact. In a text only the quote, the backslash and the control characters below U+0020 are
escaped, and these are single octets in UTF-8, so a text is escaped octet by octet.
-/

namespace Gatehouse.Json

/-- The octets of ASCII characters. -/
def ascii (cs : List Char) : Bytes := cs.map fun c => UInt8.ofNat c.toNat

/-- The letter that escapes a control character, if it has one. -/
def shortEscape? (c : UInt8) : Option UInt8 :=
  if c = 0x08 then some 0x62
  else if c = 0x09 then some 0x74
  else if c = 0x0A then some 0x6E
  else if c = 0x0C then some 0x66
  else if c = 0x0D then some 0x72
  else none

/-- The lower case hexadecimal digit of a number below sixteen. -/
def hexOctet (n : Nat) : UInt8 := UInt8.ofNat (if n < 10 then 0x30 + n else 0x57 + n)

/-- The written form of one octet of a text. -/
def escapeOctet (c : UInt8) : Bytes :=
  if c = 0x22 ∨ c = 0x5C then [0x5C, c]
  else if c < 0x20 then
    match shortEscape? c with
    | some letter => [0x5C, letter]
    | none => [0x5C, 0x75, 0x30, 0x30, hexOctet (c.toNat / 16), hexOctet (c.toNat % 16)]
  else [c]

/-- The written form of a text. -/
def writeText (s : String) : Bytes := 0x22 :: (Bytes.ofText s).flatMap escapeOctet ++ [0x22]

/-- The written form of a number. -/
def writeNumber : Number → Bytes
  | .int n => ascii (Digits.ofInt n)
  | .float x => ascii x.chars

mutual

/-- The compact written form of a value. -/
def write : Value → Bytes
  | .null => [0x6E, 0x75, 0x6C, 0x6C]
  | .bool true => [0x74, 0x72, 0x75, 0x65]
  | .bool false => [0x66, 0x61, 0x6C, 0x73, 0x65]
  | .number n => writeNumber n
  | .text s => writeText s
  | .array items => 0x5B :: writeItems items ++ [0x5D]
  | .object members => 0x7B :: writeMembers members ++ [0x7D]

/-- The written forms of the items of an array, with commas between them. -/
def writeItems : List Value → Bytes
  | [] => []
  | [v] => write v
  | v :: w :: rest => write v ++ 0x2C :: writeItems (w :: rest)

/-- The written forms of the members of an object, with commas between them. -/
def writeMembers : List (String × Value) → Bytes
  | [] => []
  | [(name, v)] => writeText name ++ 0x3A :: write v
  | (name, v) :: m :: rest => writeText name ++ 0x3A :: write v ++ 0x2C :: writeMembers (m :: rest)

end

end Gatehouse.Json
