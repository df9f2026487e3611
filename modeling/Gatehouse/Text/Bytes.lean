/-!
# Octet strings

Stored values, wire payloads and the keys of the embedded store are finite sequences of octets. Text enters
and leaves this world as UTF-8, hexadecimal is for display, and deadlines are kept as eight octets, most
significant first.
-/

namespace Gatehouse

/-- A finite sequence of octets. -/
abbrev Bytes := List UInt8

namespace Bytes

/-- The UTF-8 form of a text. -/
def ofText (s : String) : Bytes := s.toUTF8.data.toList

/-- The text whose UTF-8 form this is, if there is one. -/
def text? (b : Bytes) : Option String := String.fromUTF8? ⟨b.toArray⟩

/-! ## Hexadecimal -/

/-- One hexadecimal digit, in lower case. -/
def hexDigit (n : Nat) : Char := (Nat.toDigits 16 (n % 16)).headD '0'

/-- Two lower case hexadecimal digits per octet. -/
def hex (b : Bytes) : String :=
  String.ofList (b.flatMap fun x => [hexDigit (x.toNat / 16), hexDigit x.toNat])

/-- The value of an octet that is an ASCII hexadecimal digit of either case. -/
def hexValue? (c : UInt8) : Option Nat :=
  if 0x30 ≤ c ∧ c ≤ 0x39 then some (c.toNat - 0x30)
  else if 0x61 ≤ c ∧ c ≤ 0x66 then some (c.toNat - 0x61 + 10)
  else if 0x41 ≤ c ∧ c ≤ 0x46 then some (c.toNat - 0x41 + 10)
  else none

/-- Reads two hexadecimal digits per octet and nothing else. -/
def ofHex? : List Char → Option Bytes
  | [] => some []
  | [_] => none
  | a :: b :: rest => do
    let hi ← hexValue? (UInt8.ofNat a.toNat)
    let lo ← hexValue? (UInt8.ofNat b.toNat)
    let tail ← ofHex? rest
    if a.toNat < 128 ∧ b.toNat < 128 then some (UInt8.ofNat (16 * hi + lo) :: tail) else none

/-! ## Words of eight octets -/

/-- The value of octets read as one number, most significant first. -/
def toNat (b : Bytes) : Nat := b.foldl (fun n x => 256 * n + x.toNat) 0

/-- The last `width` octets of a number, most significant first. -/
def ofNat : (width : Nat) → (n : Nat) → Bytes
  | 0, _ => []
  | width + 1, n => ofNat width (n / 256) ++ [UInt8.ofNat n]

end Bytes

end Gatehouse
