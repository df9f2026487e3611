import Gatehouse.Time.Span

/-!
# Instants of the wall clock

An instant is a second since 1 January 1970 in UTC and nanoseconds beyond it. Within a leap second the nanoseconds run
from one to two thousand million while the second stands still. Instants outside about 262 000 years do not exist.
-/

namespace Gatehouse

/-- A moment in UTC. -/
structure Instant where
  seconds : Int
  nanos : Nat
deriving DecidableEq, Inhabited

namespace Instant

/-- The first second that an instant can have: the start of the year -262143. -/
def firstSecond : Int := -8334601228800

/-- The last second that an instant can have: the end of the year 262142. -/
def lastSecond : Int := 8210266876799

/-- Whether a second is within the years that exist. -/
def inRange (seconds : Int) : Bool := firstSecond ≤ seconds && seconds ≤ lastSecond

/-- The instant of a whole second, if it exists. -/
def ofSeconds? (seconds : Int) : Option Instant := if inRange seconds then some ⟨seconds, 0⟩ else none

/-- The instant at a number of nanoseconds since 1 January 1970. -/
def ofUnixNanos (n : Int) : Instant := ⟨n / 1000000000, (n % 1000000000).toNat⟩

/-- The instant at a number of milliseconds since 1 January 1970. -/
def ofUnixMillis (n : Int) : Instant := ofUnixNanos (n * 1000000)

/-- Nanoseconds since 1 January 1970. -/
def unixNanos (t : Instant) : Int := t.seconds * 1000000000 + t.nanos

/-- Earlier, or the same instant. -/
def le (a b : Instant) : Bool := a.seconds < b.seconds || (a.seconds = b.seconds && a.nanos ≤ b.nanos)

instance : LE Instant := ⟨fun a b => le a b = true⟩

instance (a b : Instant) : Decidable (a ≤ b) := inferInstanceAs (Decidable (le a b = true))

/-- Whether an instant lies in a leap second. -/
def isLeap (t : Instant) : Bool := 1000000000 ≤ t.nanos

/-- The instant a span later, if it exists. A sum that leaves a leap second counts that second as the one before. -/
def add? (t : Instant) (d : Span) : Option Instant :=
  if t.isLeap ∧ t.nanos + d.nanos < 2000000000 then some ⟨t.seconds, t.nanos + d.nanos⟩
  else
    let sum := t.nanos % 1000000000 + d.nanos
    let seconds := t.seconds + (sum / 1000000000 : Nat)
    if inRange seconds then some ⟨seconds, sum % 1000000000⟩ else none

/-- The nanoseconds from one instant to another, below zero if the other is earlier. -/
def since (later earlier : Instant) : Int := later.unixNanos - earlier.unixNanos

end Instant

end Gatehouse
