import Gatehouse.Text.Digits

/-!
# Spans of time

A span is a whole number of nanoseconds, never negative. Its text takes the largest unit that the span reaches, with an
exact decimal fraction and no trailing zeros.
-/

namespace Gatehouse

/-- A length of time in nanoseconds. -/
structure Span where
  nanos : Nat
deriving DecidableEq, Inhabited

namespace Span

/-- The span of no time at all. -/
def zero : Span := ⟨0⟩

/-- A span of whole seconds. -/
def ofSeconds (n : Nat) : Span := ⟨n * 1000000000⟩

/-- A span of whole milliseconds. -/
def ofMillis (n : Nat) : Span := ⟨n * 1000000⟩

/-- The whole seconds of a span. -/
def seconds (d : Span) : Nat := d.nanos / 1000000000

/-- The nanoseconds beyond the whole seconds. -/
def subsecond (d : Span) : Nat := d.nanos % 1000000000

/-- The whole milliseconds of a span. -/
def millis (d : Span) : Nat := d.nanos / 1000000

/-- The whole milliseconds of a span as a word of 64 bits, which wraps. -/
def millisWord (d : Span) : Nat := d.millis % 18446744073709551616

/-- A decimal fraction of `width` places, written without its trailing zeros and not at all if it is zero. -/
def fraction (width n : Nat) : List Char :=
  let shown := ((Digits.padded width n).reverse.dropWhile (· == '0')).reverse
  if shown.isEmpty then [] else '.' :: shown

/-- The text of a span: seconds, milliseconds, microseconds or nanoseconds, whichever is the largest unit reached. -/
def text (d : Span) : String :=
  let shown (unit places : Nat) (name : String) : String :=
    String.ofList (Digits.ofNat (d.nanos / unit) ++ fraction places (d.nanos % unit)) ++ name
  if 1000000000 ≤ d.nanos then shown 1000000000 9 "s"
  else if 1000000 ≤ d.nanos then shown 1000000 6 "ms"
  else if 1000 ≤ d.nanos then shown 1000 3 "µs"
  else shown 1 0 "ns"

end Span

end Gatehouse
