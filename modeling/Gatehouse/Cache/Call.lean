import Gatehouse.Cache.Error
import Gatehouse.Outcome
import Gatehouse.Time.Instant

/-!
# Calls of an engine

An engine stores octets under text keys, with an optional lifetime. These are the calls that every engine answers, and
the type of what each of them is answered with.
-/

namespace Gatehouse

/-- A call of an engine. -/
inductive EngineCall where
  /-- Whether a live entry has the key. -/
  | has (key : String)
  /-- The value of the live entry with the key. -/
  | fetch (key : String)
  /-- Sets the value under a key, to live for a span or for ever. -/
  | put (key : String) (value : Bytes) (lifetime : Option Span)
  /-- Removes the key, if it is there. -/
  | delete (key : String)
  /-- Removes the key and tells whether a live entry had it. -/
  | take (key : String)
  /-- The keys of the live entries that start with a text. -/
  | keys (stem : String)
  /-- The live entries whose keys start with a text. -/
  | entries (stem : String)
  /-- How long the live entry with the key still has, if it is to expire. -/
  | remaining (key : String)
  /-- Removes every entry. -/
  | flush
  /-- Ends the engine. -/
  | close
deriving DecidableEq

/-- The ten calls without their arguments. -/
inductive Method where
  | has
  | fetch
  | put
  | delete
  | take
  | keys
  | entries
  | remaining
  | flush
  | close
deriving DecidableEq

namespace EngineCall

/-- What a call is answered with when it succeeds. -/
abbrev Reply : EngineCall → Type
  | .has _ => Bool
  | .fetch _ => Bytes
  | .put _ _ _ => Unit
  | .delete _ => Unit
  | .take _ => Bool
  | .keys _ => List String
  | .entries _ => List (String × Bytes)
  | .remaining _ => Option Span
  | .flush => Unit
  | .close => Unit

/-- A call without its arguments. -/
def method : EngineCall → Method
  | .has _ => .has
  | .fetch _ => .fetch
  | .put _ _ _ => .put
  | .delete _ => .delete
  | .take _ => .take
  | .keys _ => .keys
  | .entries _ => .entries
  | .remaining _ => .remaining
  | .flush => .flush
  | .close => .close

/-- What becomes of a call: a reply or a failure, unless the call is abandoned. -/
abbrev Answer (c : EngineCall) : Type := Outcome (Except CacheError c.Reply)

end EngineCall

/-- Whether a key starts with a text. -/
def startsWith (stem key : String) : Bool := stem.toList.isPrefixOf key.toList

/-- The readings of the two clocks: the wall clock in nanoseconds since 1 January 1970, and a clock that only goes
forward, in nanoseconds since an origin of its own. -/
structure Clocks where
  wall : Int
  monotonic : Nat
deriving DecidableEq

namespace Clocks

/-- The instant that the wall clock shows. -/
def instant (c : Clocks) : Instant := Instant.ofUnixNanos c.wall

/-- The whole milliseconds that the wall clock shows, and zero before 1970. -/
def unixMillis (c : Clocks) : Nat := (c.wall / 1000000).toNat

end Clocks

end Gatehouse
