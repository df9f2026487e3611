import Gatehouse.Text.Bytes

/-!
# Reading octets that may not be UTF-8

A key that is not UTF-8 can still be shown: each longest beginning of a character that the next octet does not
continue becomes one replacement character, and reading goes on with that octet.
-/

namespace Gatehouse.Bytes

/-- Shown in place of octets that are no character. -/
def replacement : Char := '\uFFFD'

/-- What may follow a leading octet: how many octets in all, and the range of the second one. -/
structure Lead where
  length : Nat
  low : UInt8
  high : UInt8

/-- The leading octets of the UTF-8 forms of more than one octet. -/
def lead? (c : UInt8) : Option Lead :=
  if 0xC2 ≤ c ∧ c ≤ 0xDF then some ⟨2, 0x80, 0xBF⟩
  else if c = 0xE0 then some ⟨3, 0xA0, 0xBF⟩
  else if c = 0xED then some ⟨3, 0x80, 0x9F⟩
  else if 0xE1 ≤ c ∧ c ≤ 0xEF then some ⟨3, 0x80, 0xBF⟩
  else if c = 0xF0 then some ⟨4, 0x90, 0xBF⟩
  else if 0xF1 ≤ c ∧ c ≤ 0xF3 then some ⟨4, 0x80, 0xBF⟩
  else if c = 0xF4 then some ⟨4, 0x80, 0x8F⟩
  else none

/-- How many of the first `n` octets are continuation octets. -/
def continuations : (n : Nat) → Bytes → Nat
  | n + 1, c :: rest => if 0x80 ≤ c ∧ c ≤ 0xBF then continuations n rest + 1 else 0
  | _, _ => 0

/-- The number of octets, after the leading one, that go on with its character. -/
def continued (l : Lead) : Bytes → Nat
  | [] => 0
  | c :: rest => if l.low ≤ c ∧ c ≤ l.high then continuations (l.length - 2) rest + 1 else 0

/-- The characters of the octets, with one replacement character for each longest unfinished beginning. The
fuel is a bound on the number of characters. -/
def lossyChars : (fuel : Nat) → Bytes → List Char
  | 0, _ => []
  | _, [] => []
  | fuel + 1, c :: rest =>
    if c < 0x80 then Char.ofNat c.toNat :: lossyChars fuel rest
    else match lead? c with
      | none => replacement :: lossyChars fuel rest
      | some l =>
        let n := continued l rest
        let shown :=
          if n + 1 = l.length then ((text? (c :: rest.take n)).map String.toList).getD [replacement]
          else [replacement]
        shown ++ lossyChars fuel (rest.drop n)

/-- The text of the octets, whatever they are. -/
def lossyText (b : Bytes) : String := String.ofList (lossyChars b.length b)

end Gatehouse.Bytes
