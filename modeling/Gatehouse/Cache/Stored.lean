import Gatehouse.Cache.Call

/-!
# Entries of the embedded store

A stored entry is its deadline in eight octets, most significant first, and then its value. The deadline counts
milliseconds since 1 January 1970; zero stands for an entry that never expires.
-/

namespace Gatehouse

/-- An entry of the embedded store. -/
structure Stored where
  /-- Milliseconds since 1 January 1970, or zero. -/
  deadline : Nat
  value : Bytes
deriving DecidableEq

namespace Stored

/-- The octets of the deadline. -/
def headerLength : Nat := 8

/-- The largest deadline. -/
def maxDeadline : Nat := 18446744073709551615

/-- The deadline of an entry written at a time: never zero for one that is to expire, and at most the largest one. -/
def deadlineAt (nowMillis : Nat) : Option Span → Nat
  | none => 0
  | some d => max 1 (min maxDeadline (nowMillis + d.millisWord))

/-- The stored octets of an entry. -/
def toBytes (e : Stored) : Bytes := Bytes.ofNat headerLength e.deadline ++ e.value

/-- The stored octets of a value written at a time. -/
def pack (nowMillis : Nat) (value : Bytes) (lifetime : Option Span) : Bytes :=
  toBytes ⟨deadlineAt nowMillis lifetime, value⟩

/-- The entry of stored octets. Fewer than eight are no entry. -/
def ofBytes? (raw : Bytes) : Option Stored :=
  if raw.length < headerLength then none else some ⟨Bytes.toNat (raw.take headerLength), raw.drop headerLength⟩

/-- Reads the stored octets under a key. -/
def parse (key : String) (raw : Bytes) : Except CacheError Stored :=
  match ofBytes? raw with
  | some e => .ok e
  | none => .error (.corruptEntry key)

/-- Whether the entry has expired. -/
def isExpired (e : Stored) (nowMillis : Nat) : Bool := e.deadline ≠ 0 && e.deadline ≤ nowMillis

/-- How long the entry still has, if it is to expire. -/
def remaining (e : Stored) (nowMillis : Nat) : Option Span :=
  if e.deadline = 0 then none else some (Span.ofMillis (e.deadline - nowMillis))

end Stored

end Gatehouse
