import Gatehouse.Action.Basic

/-!
# Unique ids

An id is made of 32 hexadecimal digits in lower case. All are random but two: the thirteenth tells that the id is
random, and the seventeenth has two bits that tell the layout.
-/

namespace Gatehouse

namespace UniqueId

/-- The number of digits. -/
def length : Nat := 32

/-- The digit at a place, given the random one. -/
def digitAt (place : Nat) (random : Nat) : Nat :=
  if place = 12 then 4 else if place = 16 then 8 + random % 4 else random

/-- The id of random digits. -/
def ofDigits (random : Fin length → Fin 16) : String :=
  String.ofList ((List.finRange length).map fun i => Bytes.hexDigit (digitAt i.val (random i).val))

end UniqueId

/-- A new record with a fresh id. -/
def TokenRecord.issueFresh (kind : TokenKind) (subject : String) (expiresAt : Option Instant) : Action TokenRecord := do
  let random ← Action.draw 15 UniqueId.length
  let now ← Action.clock
  return TokenRecord.issue kind subject expiresAt (UniqueId.ofDigits random) now

end Gatehouse
